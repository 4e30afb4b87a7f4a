import ContainerRegistry.Library.Runs
import ContainerRegistry.Model.ManifestHandler

/-!
# What is fetched is what was uploaded

An accepted upload was decoded as its content type header says, and its payload names that type or
none (`Decodes`). No stage changes what is stored, apart from the tag of the request (`Grows`), and
a row holds the media type of some upload of its payload (`Sound`). A payload that names no type
comes back as a list without a type, which is answered as if it were schema 1.
-/

namespace ContainerRegistry.Analysis.Manifests

open Library Model.Manifests Function Stage
open Model (Digest TagName)

variable {Bytes : Type} {F : Formats Bytes} {cfg : Config Bytes}

/-! ## Decoding -/

def uploadType (F : Formats Bytes) (q : PutRequest Bytes) : MediaType :=
  (contentMediaType F q.contentType).getD .empty

inductive Decodes (F : Formats Bytes) (p : Bytes) : MediaType → Manifest Bytes → Prop where
  | schema2 {m : Image} : F.schema2 p = some m → m.versioned.mediaType = .manifestV2 →
      Decodes F p .manifestV2 (.schema2 m p)
  | oci {m : Image} : F.ocischema p = some m →
      m.versioned.mediaType = .empty ∨ m.versioned.mediaType = .imageManifest →
      Decodes F p .imageManifest (.oci m p)
  | list {l : ManifestList} : F.manifestList p = some l → l.versioned.mediaType = .manifestList →
      Decodes F p .manifestList (.list l p)
  | index {l : ManifestList} : F.manifestList p = some l →
      l.versioned.mediaType = .empty ∨ l.versioned.mediaType = .imageIndex →
      Decodes F p .imageIndex (.list l p)

def versioned : Manifest Bytes → Versioned
  | .schema1 _ _ => ⟨1, .empty⟩
  | .schema2 m _ => m.versioned
  | .oci m _ => m.versioned
  | .list l _ => l.versioned

variable {p : Bytes} {t : MediaType} {m : Manifest Bytes}

section

variable (h : Decodes F p t m)
include h

theorem Decodes.versioned_eq : F.versioned p = some (versioned m) := by
  cases h with
  | schema2 hm _ => exact F.schema2_versioned p _ hm
  | oci hm _ => exact F.ocischema_versioned p _ hm
  | list hl _ | index hl _ => exact F.manifestList_versioned p _ hl

theorem Decodes.mem_uploadTypes : t ∈ uploadTypes := by
  cases h <;> decide

theorem Decodes.type_eq (hne : (versioned m).mediaType ≠ .empty) : (versioned m).mediaType = t := by
  cases h with
  | schema2 _ ht => exact ht
  | oci _ ht => exact ht.resolve_left hne
  | list _ ht => exact ht
  | index _ ht => exact ht.resolve_left hne

theorem Decodes.untyped (he : (versioned m).mediaType = .empty) :
    t = .imageManifest ∨ t = .imageIndex := by
  cases h with
  | schema2 _ ht => exact absurd (ht.symm.trans he) (by decide)
  | oci _ _ => exact .inl rfl
  | list _ ht => exact absurd (ht.symm.trans he) (by decide)
  | index _ _ => exact .inr rfl

end

theorem Decodes.ocischema_eq (h : Decodes F p .imageManifest m) :
    ocischemaUnmarshalJSON F p = .ok m := by
  cases h with
  | oci hm ht =>
    unfold ocischemaUnmarshalJSON
    rw [hm]
    exact if_neg fun hne => ht.elim hne.1 hne.2

variable {q : PutRequest Bytes} {d : Digest}

/-- What is accepted decodes. -/
theorem unmarshalManifest_ok (h : unmarshalManifest F q.contentType q.body = .ok (m, d)) :
    (∃ all canonical, m = .schema1 all canonical) ∨
      (Decodes F q.body (uploadType F q) m ∧ d = F.fromBytes q.body) := by
  unfold unmarshalManifest at h
  cases ht : contentMediaType F q.contentType with
  | none => simp [ht] at h
  | some t =>
    have htype : uploadType F q = t := by rw [uploadType, ht, Option.getD_some]
    rw [ht] at h
    simp only at h
    rw [htype]
    unfold mappings at h
    split at h
    · -- schema 2
      unfold schema2Func schema2UnmarshalJSON at h
      cases hm : F.schema2 q.body with
      | none => simp [hm, Except.map] at h
      | some im =>
        by_cases hv : im.versioned.mediaType = .manifestV2
        · simp only [hm, hv, ne_eq, not_true_eq_false, if_false, Except.map, Except.ok.injEq,
            Prod.mk.injEq] at h
          exact .inr ⟨h.1 ▸ Decodes.schema2 hm hv, h.2.symm⟩
        · simp [hm, hv, Except.map] at h
    · -- OCI image manifest
      unfold ocischemaFunc ocischemaUnmarshalJSON at h
      cases hm : F.ocischema q.body with
      | none => simp [hm, Except.map] at h
      | some im =>
        by_cases hv : im.versioned.mediaType ≠ .empty ∧ im.versioned.mediaType ≠ .imageManifest
        · simp [hm, hv, Except.map] at h
        · simp only [hm, hv, if_false, Except.map, Except.ok.injEq, Prod.mk.injEq] at h
          rw [not_and_or, not_not, not_not] at hv
          exact .inr ⟨h.1 ▸ Decodes.oci hm hv, h.2.symm⟩
    · -- manifest list
      unfold manifestListFunc manifestListUnmarshalJSON at h
      cases hl : F.manifestList q.body with
      | none => simp [hl, Except.bind] at h
      | some l =>
        by_cases hv : l.versioned.mediaType = .manifestList
        · simp only [hl, Except.bind, hv, ne_eq, not_true_eq_false, if_false, Except.ok.injEq,
            Prod.mk.injEq] at h
          exact .inr ⟨h.1 ▸ Decodes.list hl hv, h.2.symm⟩
        · simp [hl, Except.bind, hv] at h
    · -- OCI index
      unfold imageIndexFunc manifestListUnmarshalJSON at h
      cases hl : F.manifestList q.body with
      | none => simp [hl, Except.bind] at h
      | some l =>
        by_cases hv : l.versioned.mediaType ≠ .empty ∧ l.versioned.mediaType ≠ .imageIndex
        · simp [hl, Except.bind, hv] at h
        · simp only [hl, Except.bind, hv, if_false, Except.ok.injEq, Prod.mk.injEq] at h
          rw [not_and_or, not_not, not_not] at hv
          exact .inr ⟨h.1 ▸ Decodes.index hl hv, h.2.symm⟩
    · -- everything else is taken for schema 1
      unfold schema1Func at h
      cases hs : F.signed q.body with
      | none => simp [hs] at h
      | some canonical =>
        simp only [hs, Except.ok.injEq, Prod.mk.injEq] at h
        exact .inl ⟨q.body, canonical, h.1.symm⟩

/-! ## What an upload writes to the database -/

def rowType : Manifest Bytes → MediaType
  | .list l _ => listMediaType l
  | m => (versioned m).mediaType

def rowOf (m : Manifest Bytes) (p : Bytes) : Row Bytes :=
  ⟨(versioned m).schemaVersion, rowType m, p⟩

/-- A list refers to manifests. -/
def Filled : Manifest Bytes → Prop
  | .list l _ => l.references ≠ []
  | _ => True

/-- The upload of a manifest leaves the rows, or inserts the row of the manifest where there is
none. A list without manifests is never inserted. -/
inductive RowWrite (m : Manifest Bytes) (d : Digest) (p : Bytes) (db db' : Database Bytes) :
    Prop where
  | kept : db'.manifests = db.manifests → RowWrite m d p db db'
  | inserted : db.manifests d = none → (versioned m).schemaVersion = 2 → Filled m →
      rowType m ∈ mediaTypes →
      db'.manifests = update db.manifests d (some (rowOf m p)) → RowWrite m d p db db'

structure DbPut (m : Manifest Bytes) (d : Digest) (p : Bytes) (db : Database Bytes)
    (r : Database Bytes × Option PutError) : Prop where
  tags : r.1.tags = db.tags
  repository : db.repository = true → r.1.repository = true
  rows : RowWrite m d p db r.1
  ok : r.2 = none →
    r.1.repository = true ∧ (r.1.manifests d).isSome ∧ (versioned m).schemaVersion = 2

variable {db : Database Bytes}

theorem DbPut.refused {e} : DbPut m d p db (db, some e) where
  tags := rfl
  repository := id
  rows := .kept rfl
  ok := nofun

theorem version_of_validate {version skip} {check : Descriptor → Option CheckError} {references}
    (h : validate version skip check references = none) : version = 2 := by
  by_contra hne
  rw [validate, if_pos hne] at h
  cases h

/-- A row is created. -/
theorem createManifest_put (p : Bytes) (configuration : Option MediaType)
    (hver : (versioned m).schemaVersion = 2) (hfilled : Filled m) (hrepo : db.repository = true)
    (hnone : db.manifests d = none) :
    DbPut m d p db (createManifest d (rowOf m p) configuration db) := by
  unfold createManifest
  split
  · exact DbPut.refused
  next hmap =>
  have hmem : rowType m ∈ mediaTypes := by
    by_contra hnot
    simp [mapMediaType, rowOf, hnot] at hmap
  exact {
    tags := rfl
    repository := id
    rows := .inserted hnone hver hfilled hmem rfl
    ok := fun _ => ⟨hrepo, by simp, hver⟩ }

theorem DbPut.of_created {r} (h : DbPut m d p { db with repository := true } r) :
    DbPut m d p db r := by
  refine { h with repository := fun _ => h.repository rfl, rows := ?_ }
  cases h.rows with
  | kept hm => exact .kept hm
  | inserted hnone hver hfilled hmem hm => exact .inserted hnone hver hfilled hmem hm

theorem DbPut.found (hver : (versioned m).schemaVersion = 2) (hrepo : db.repository = true)
    (hsome : (db.manifests d).isSome) : DbPut m d p db (db, none) where
  tags := rfl
  repository := id
  rows := .kept rfl
  ok := fun _ => ⟨hrepo, hsome, hver⟩

variable {blobs : Digest → Option Bytes}

/-- The row of an image. -/
theorem dbPutManifestOCIOrSchema2_put {im}
    (hm : rowOf m p = ⟨im.versioned.schemaVersion, im.versioned.mediaType, p⟩)
    (hver : (versioned m).schemaVersion = 2) (hfilled : Filled m) :
    DbPut m d p db (dbPutManifestOCIOrSchema2 blobs im d p db) := by
  apply DbPut.of_created
  unfold dbPutManifestOCIOrSchema2
  dsimp only
  cases dbFindRepositoryBlob { db with repository := true } im.config with
  | error e => exact DbPut.refused
  | ok found =>
    dsimp only
    by_cases hblob : blobs found.1 = none
    · rw [if_pos hblob]
      exact DbPut.refused
    rw [if_neg hblob]
    by_cases hrow : (db.manifests d).isSome
    · rw [if_pos hrow]
      exact DbPut.found hver rfl hrow
    rw [if_neg hrow, ← hm]
    have hnone : db.manifests d = none := Option.not_isSome_iff_eq_none.1 hrow
    have hput : DbPut m d p { db with repository := true } _ :=
      createManifest_put p (some found.2) hver hfilled rfl hnone
    generalize createManifest d (rowOf m p) (some found.2) { db with repository := true } = r
      at hput
    rcases r with ⟨db', err⟩
    cases err with
    | some e => exact hput
    | none =>
      -- the row stays when a layer is missing
      exact { hput with ok := fun _ => hput.ok rfl }

/-- The row of a list. -/
theorem dbPutManifestList_put {l p canonical} :
    DbPut (.list l canonical) d p db (dbPutManifestList cfg l d p db) := by
  unfold dbPutManifestList
  cases hvalid : listValidate cfg.isCache (dbDependencies db) l with
  | some e => exact DbPut.refused
  | none =>
    have hver : l.versioned.schemaVersion = 2 := version_of_validate hvalid
    apply DbPut.of_created
    dsimp only
    by_cases hrow : (db.manifests d).isSome
    · rw [if_pos hrow]
      exact DbPut.found hver rfl hrow
    rw [if_neg hrow]
    cases hlock : (findReferences { db with repository := true } l.references).or
        (findAndLockNBefore l.references) with
    | some e => exact DbPut.refused
    | none =>
      have hfilled : l.references ≠ [] := by
        simpa [findAndLockNBefore] using (Option.or_eq_none_iff.1 hlock).2
      exact createManifest_put p none hver hfilled rfl (Option.not_isSome_iff_eq_none.1 hrow)

/-- **The database after an upload**, for every kind of manifest. -/
theorem dbPutManifest_put (cfg : Config Bytes) (m : Manifest Bytes) (d : Digest) (p : Bytes)
    (s : Store Bytes) : ∃ db', (dbPutManifest cfg m d p s).1 = { s with db := db' } ∧
      DbPut m d p s.db (db', (dbPutManifest cfg m d p s).2) := by
  unfold dbPutManifest
  refine ⟨_, rfl, ?_⟩
  cases m with
  | schema1 all canonical => exact DbPut.refused
  | schema2 im canonical | oci im canonical =>
    dsimp only
    split
    · exact DbPut.refused
    · next hvalid => exact dbPutManifestOCIOrSchema2_put rfl (version_of_validate hvalid) trivial
  | list l canonical => exact dbPutManifestList_put

theorem fsPut_eq (F : Formats Bytes) (cfg : Config Bytes) (m : Manifest Bytes) (s : Store Bytes) :
    (∃ e, fsPut F cfg m s = (s, some e)) ∨
      (fsPut F cfg m s = (linkRevision F m.payload.2 s, none) ∧
        (versioned m).schemaVersion = 2) := by
  unfold fsPut
  cases m with
  | schema1 all canonical => exact .inl ⟨_, rfl⟩
  | schema2 m canonical | oci m canonical | list m canonical =>
    dsimp only
    split
    · next e _ => exact .inl ⟨e, rfl⟩
    · next hvalid => exact .inr ⟨rfl, version_of_validate hvalid⟩

/-! ## Uploads only add -/

/-- Everything stored stays as it is, apart from one tag. -/
structure Grows (tag : Option TagName) (s s' : Store Bytes) : Prop where
  blobs : ∀ d p, s.blobs d = some p → s'.blobs d = some p
  revisions : ∀ d, s.revisions d = true → s'.revisions d = true
  current : ∀ t, some t ≠ tag → s'.current t = s.current t
  repository : s.db.repository = true → s'.db.repository = true
  rows : ∀ d row, s.db.manifests d = some row → s'.db.manifests d = some row
  tags : ∀ t, some t ≠ tag → s'.db.tags t = s.db.tags t

variable {tag : Option TagName}

theorem Grows.refl (s : Store Bytes) : Grows tag s s where
  blobs := fun _ _ h => h
  revisions := fun _ h => h
  current := fun _ _ => rfl
  repository := id
  rows := fun _ _ h => h
  tags := fun _ _ => rfl

instance : IsPreorder (Store Bytes) (Grows tag) where
  refl := Grows.refl
  trans _ _ _ h h' :=
    { blobs := fun d p hp => h'.blobs d p (h.blobs d p hp)
      revisions := fun d hd => h'.revisions d (h.revisions d hd)
      current := fun t ht => (h'.current t ht).trans (h.current t ht)
      repository := fun hr => h'.repository (h.repository hr)
      rows := fun d row hd => h'.rows d row (h.rows d row hd)
      tags := fun t ht => (h'.tags t ht).trans (h.tags t ht) }

theorem update_getD_some {d d' p p'} (h : blobs d' = some p') :
    update blobs d (some ((blobs d).getD p)) d' = some p' := by
  by_cases hd : d' = d
  · subst hd
    rw [update_self, h, Option.getD_some]
  · rw [update_of_ne hd, h]

/-- The filesystem grows. -/
theorem fsPut_grows : Keeps (Grows tag) (fsPut F cfg m) := by
  intro s
  rcases fsPut_eq F cfg m s with ⟨e, he⟩ | ⟨he, -⟩
  · rw [he]
    exact Grows.refl s
  rw [he]
  exact { Grows.refl s with
    blobs := fun _ _ h => update_getD_some h
    revisions := fun d h => by
      dsimp only [linkRevision]
      by_cases hd : d = F.fromBytes m.payload.2
      · rw [hd, update_self]
      · rw [update_of_ne hd, h] }

/-- So does the database. -/
theorem dbPutManifest_grows : Keeps (Grows tag) (dbPutManifest cfg m d p) := by
  intro s
  obtain ⟨db', hs, hput⟩ := dbPutManifest_put cfg m d p s
  rw [hs]
  exact { Grows.refl s with
    repository := hput.repository
    tags := fun t _ => congrFun hput.tags t
    rows := fun d' row h => by
      cases hput.rows with
      | kept hm => rwa [hm]
      | inserted hnone _ _ _ hm =>
        have hd : d' ≠ d := fun hd => by
          rw [← hd, h] at hnone
          cases hnone
        rwa [hm, update_of_ne hd] }

theorem fsTag_grows {t} : Keeps (Grows (some t)) (fsTag t d : PutStage Bytes) := by
  intro s
  exact { Grows.refl s with
    current := fun t' ht => update_of_ne (fun h => ht (congrArg some h)) _ _ }

theorem dbTagManifest_grows {t} : Keeps (Grows (some t)) (dbTagManifest d t : PutStage Bytes) := by
  intro s
  unfold dbTagManifest
  cases s.db.manifests d with
  | none => exact Grows.refl s
  | some row =>
    exact { Grows.refl s with
      tags := fun t' ht => update_of_ne (fun h => ht (congrArg some h)) _ _ }

variable {R : Store Bytes → Store Bytes → Prop} [IsPreorder (Store Bytes) R]
  {reference : Reference}

theorem tagStages_keeps (hfsTag : ∀ t, reference = .tag t → Keeps R (fsTag t d))
    (hdbTag : ∀ t, reference = .tag t → Keeps R (dbTagManifest d t)) :
    Keeps R (tagStages cfg d reference) := by
  cases reference with
  | digest d' => exact refl_of R
  | tag t =>
    exact ((hfsTag t rfl).when).andThen ((hdbTag t rfl).when)

theorem putStages_keeps (hfs : Keeps R (fsPut F cfg m)) (hdb : Keeps R (dbPutManifest cfg m d p))
    (htag : Keeps R (tagStages cfg d reference)) : Keeps R (putStages F cfg reference m d p) :=
  (hfs.when).andThen ((hdb.when).andThen htag)

theorem tagStages_grows : Keeps (Grows reference.tag?) (tagStages cfg d reference) := by
  apply tagStages_keeps
  · intro t ht
    rw [ht]
    exact fsTag_grows
  · intro t ht
    rw [ht]
    exact dbTagManifest_grows

/-- INTERNAL: the stages are run, or the upload is refused before them. -/
theorem putManifest_cases (F : Formats Bytes) (cfg : Config Bytes) (q : PutRequest Bytes)
    (s : Store Bytes) :
    (putManifest F cfg q s).1 = s ∧ (∀ d, (putManifest F cfg q s).2 ≠ .created d) ∨
      ∃ m d, unmarshalManifest F q.contentType q.body = .ok (m, d) ∧
        (q.reference = .digest d ∨ ∃ t, q.reference = .tag t) ∧
        (putManifest F cfg q s).1 = (putStages F cfg q.reference m d q.body s).1 ∧
        ∀ d', (putManifest F cfg q s).2 = .created d' →
          d' = d ∧ (putStages F cfg q.reference m d q.body s).2 = none := by
  unfold putManifest
  split
  · exact .inl ⟨rfl, nofun⟩
  cases hm : unmarshalManifest F q.contentType q.body with
  | error e => exact .inl ⟨rfl, nofun⟩
  | ok md =>
    obtain ⟨m, d⟩ := md
    dsimp only
    split
    · exact .inl ⟨rfl, nofun⟩
    next href =>
    cases cfg.applyResourcePolicy m with
    | some message => exact .inl ⟨rfl, nofun⟩
    | none =>
      refine Or.inr ⟨m, d, rfl, ?_, ?_⟩
      · cases hr : q.reference with
        | tag t => exact .inr ⟨t, rfl⟩
        | digest d'' =>
          rw [hr] at href
          simpa [Reference.tag?] using href
      · dsimp only
        rcases putStages F cfg q.reference m d q.body s with ⟨s', _ | e⟩
        · exact ⟨rfl, fun d' h => ⟨by cases h; rfl, rfl⟩⟩
        · exact ⟨rfl, nofun⟩

theorem putManifest_keeps (hstages : ∀ m d, unmarshalManifest F q.contentType q.body = .ok (m, d) →
      Keeps R (putStages F cfg q.reference m d q.body))
    (s : Store Bytes) : R s (putManifest F cfg q s).1 := by
  rcases putManifest_cases F cfg q s with ⟨hs, -⟩ | ⟨m, d, hm, -, hs, -⟩ <;> rw [hs]
  · exact refl_of R s
  · exact hstages m d hm s

/-- **An upload changes nothing but the tag of the request.** -/
theorem putManifest_grows (q : PutRequest Bytes) (s : Store Bytes) :
    Grows q.reference.tag? s (putManifest F cfg q s).1 := by
  apply putManifest_keeps
  intro m d _
  exact putStages_keeps fsPut_grows dbPutManifest_grows tagStages_grows

/-! ## What the stores hold -/

/-- A row is what the upload of its payload under some media type inserts. -/
structure RowSound (F : Formats Bytes) (d : Digest) (row : Row Bytes) : Prop where
  digest : F.fromBytes row.payload = d
  version : row.schemaVersion = 2
  known : row.mediaType ∈ mediaTypes
  decodes : ∃ t m, Decodes F row.payload t m ∧ row.mediaType = rowType m ∧ Filled m

structure Sound (F : Formats Bytes) (s : Store Bytes) : Prop where
  blobs : ∀ d p, s.blobs d = some p → F.fromBytes p = d
  rows : ∀ d row, s.db.manifests d = some row → RowSound F d row

theorem update_getD_digest {p p' d'} (hblobs : ∀ d p, blobs d = some p → F.fromBytes p = d)
    (h : update blobs (F.fromBytes p) (some ((blobs (F.fromBytes p)).getD p)) d' = some p') :
    F.fromBytes p' = d' := by
  by_cases hd : d' = F.fromBytes p
  · rw [hd, update_self, Option.some.injEq] at h
    rw [hd, ← h]
    cases hb : blobs (F.fromBytes p) with
    | none => rw [Option.getD_none]
    | some p₀ => exact hblobs _ _ hb
  · rw [update_of_ne hd] at h
    exact hblobs d' p' h

variable {s : Store Bytes} {row : Row Bytes}

/-- A row was there, or is that of the upload. -/
theorem putManifest_row (h : (putManifest F cfg q s).1.db.manifests d = some row) :
    s.db.manifests d = some row ∨ ∃ t m, Decodes F q.body t m ∧ d = F.fromBytes q.body ∧
      (versioned m).schemaVersion = 2 ∧ Filled m ∧ rowType m ∈ mediaTypes ∧
      row = rowOf m q.body := by
  let Inserted (d : Digest) (row : Row Bytes) : Prop :=
    ∃ t m, Decodes F q.body t m ∧ d = F.fromBytes q.body ∧ (versioned m).schemaVersion = 2 ∧
      Filled m ∧ rowType m ∈ mediaTypes ∧ row = rowOf m q.body
  let R (s s' : Store Bytes) : Prop :=
    ∀ d row, s'.db.manifests d = some row → s.db.manifests d = some row ∨ Inserted d row
  have : IsPreorder (Store Bytes) R :=
    { refl := fun _ _ _ => Or.inl
      trans := fun _ _ _ h h' d row hrow => (h' d row hrow).elim (h d row) Or.inr }
  refine putManifest_keeps (R := R) (fun m d hm => ?_) s d row h
  refine putStages_keeps ?_ ?_ (tagStages_keeps ?_ ?_)
  · intro s d' row hrow
    rcases fsPut_eq F cfg m s with ⟨e, he⟩ | ⟨he, -⟩ <;> rw [he] at hrow <;> exact .inl hrow
  · intro s d' row hrow
    obtain ⟨db', he, hput⟩ := dbPutManifest_put cfg m d q.body s
    rw [he] at hrow
    cases hput.rows with
    | kept h => exact .inl (h ▸ hrow)
    | inserted _ hver hfilled hmem h =>
      dsimp only at hrow h
      rw [h] at hrow
      by_cases hd : d' = d
      · rw [hd, update_self, Option.some.injEq] at hrow
        rcases unmarshalManifest_ok hm with ⟨all, canonical, hm⟩ | ⟨hdec, hdigest⟩
        · rw [hm] at hver
          exact absurd (show (1 : Int) = 2 from hver) (by decide)
        · exact .inr ⟨_, m, hdec, hd.trans hdigest, hver, hfilled, hmem, hrow.symm⟩
      · rw [update_of_ne hd] at hrow
        exact .inl hrow
  · exact fun t _ s d row => Or.inl
  · intro t _ s d' row hrow
    unfold dbTagManifest at hrow
    cases hd : s.db.manifests d <;> rw [hd] at hrow <;> exact .inl hrow

/-- Blobs stay addressed. -/
theorem putManifest_blobs (hs : ∀ d p, s.blobs d = some p → F.fromBytes p = d) :
    ∀ d p, (putManifest F cfg q s).1.blobs d = some p → F.fromBytes p = d := by
  let Keyed (s : Store Bytes) : Prop := ∀ d p, s.blobs d = some p → F.fromBytes p = d
  have : IsPreorder (Store Bytes) fun s s' => Keyed s → Keyed s' :=
    { refl := fun _ => id, trans := fun _ _ _ h h' hs => h' (h hs) }
  refine putManifest_keeps (R := fun s s' => Keyed s → Keyed s') (fun m d _ => ?_) s hs
  refine putStages_keeps ?_ ?_ (tagStages_keeps ?_ ?_)
  · intro s hs
    rcases fsPut_eq F cfg m s with ⟨e, he⟩ | ⟨he, -⟩ <;> rw [he]
    · exact hs
    · exact fun _ _ h => update_getD_digest hs h
  · intro s hs
    obtain ⟨db', he, -⟩ := dbPutManifest_put cfg m d q.body s
    rw [he]
    exact hs
  · exact fun t _ s hs => hs
  · intro t _ s hs
    unfold dbTagManifest
    cases s.db.manifests d <;> exact hs

theorem putManifest_sound (hs : Sound F s) : Sound F (putManifest F cfg q s).1 where
  blobs := putManifest_blobs hs.blobs
  rows := by
    intro d row hrow
    rcases putManifest_row hrow with hold | ⟨t, m, hdec, rfl, hver, hfilled, hmem, rfl⟩
    · exact hs.rows d row hold
    · exact ⟨rfl, hver, hmem, t, m, hdec, rfl, hfilled⟩

theorem uploadBlob_sound (hs : Sound F s) : Sound F (uploadBlob F cfg p s) where
  blobs := fun _ _ h => update_getD_digest hs.blobs h
  rows := fun d row h => by
    dsimp only [uploadBlob] at h
    split at h <;> exact hs.rows d row h

theorem of_update_none {α : Type} {f : Digest → Option α} {d d' a}
    (h : update f d none d' = some a) : f d' = some a := by
  by_cases hd : d' = d
  · rw [hd, update_self] at h
    cases h
  · rwa [update_of_ne hd] at h

theorem erase_sound {e} (hs : Sound F s) : Sound F (erase s e) := by
  cases e with
  | blob d => exact { hs with blobs := fun _ _ h => hs.blobs _ _ (of_update_none h) }
  | row d => exact { hs with rows := fun _ _ h => hs.rows _ _ (of_update_none h) }
  | layer d | revision d | current t | tag t | repositoryBlob d => exact { hs with }

variable {s s' : Store Bytes}

/-- **The stores are sound in every reachable state.** -/
theorem reach_sound {ok : Store Bytes → Action Bytes → Prop} (hs : Sound F s)
    (h : Reach (step F cfg) ok s s') : Sound F s' := by
  apply h.invariant hs
  intro s a s' _ hs _ hstep
  cases a <;> simp only [step, Option.some.injEq] at hstep <;> subst hstep
  · exact putManifest_sound hs
  · exact uploadBlob_sound hs
  · exact erase_sound hs

theorem empty_sound : Sound F Store.empty where
  blobs := nofun
  rows := nofun

/-! ## What an accepted upload leaves -/

theorem putManifest_created (h : putManifest F cfg q s = (s', .created d)) :
    ∃ m, unmarshalManifest F q.contentType q.body = .ok (m, d) ∧
      (q.reference = .digest d ∨ ∃ t, q.reference = .tag t) ∧
      putStages F cfg q.reference m d q.body s = (s', none) := by
  have hcases := putManifest_cases F cfg q s
  rw [h] at hcases
  rcases hcases with ⟨-, hne⟩ | ⟨m, d', hm, href, hs, hok⟩
  · exact absurd rfl (hne d)
  · obtain ⟨rfl, hnone⟩ := hok d rfl
    exact ⟨m, hm, href, Prod.ext hs.symm hnone⟩

/-- A manifest can be found under a reference, in the store that is read. -/
structure Kept (cfg : Config Bytes) (d : Digest) (p : Bytes) (r : Reference) (s : Store Bytes) :
    Prop where
  revision : cfg.useDatabase = false → s.revisions d = true ∧ s.blobs d = some p
  row : cfg.useDatabase = true → s.db.repository = true ∧ (s.db.manifests d).isSome
  current : cfg.useDatabase = false → ∀ t, r = .tag t → s.current t = some d
  tag : cfg.useDatabase = true → ∀ t, r = .tag t → s.db.tags t = some d

variable {r : Reference}

theorem Kept.grows (h : Kept cfg d p r s) (hg : Grows tag s s')
    (htag : ∀ t, r = .tag t → some t ≠ tag) : Kept cfg d p r s' where
  revision := fun hcfg =>
    ⟨hg.revisions d (h.revision hcfg).1, hg.blobs d p (h.revision hcfg).2⟩
  row := fun hcfg => by
    obtain ⟨row, hrow⟩ := Option.isSome_iff_exists.1 (h.row hcfg).2
    exact ⟨hg.repository (h.row hcfg).1, Option.isSome_iff_exists.2 ⟨row, hg.rows d row hrow⟩⟩
  current := fun hcfg t ht => (hg.current t (htag t ht)).trans (h.current hcfg t ht)
  tag := fun hcfg t ht => (hg.tags t (htag t ht)).trans (h.tag hcfg t ht)

/-- The revision is stored. -/
theorem linkRevision_kept (hs : Sound F s) :
    (linkRevision F p s).revisions (F.fromBytes p) = true ∧
      (linkRevision F p s).blobs (F.fromBytes p) = some p := by
  refine ⟨update_self .., ?_⟩
  show update s.blobs (F.fromBytes p) _ (F.fromBytes p) = some p
  rw [update_self]
  cases hb : s.blobs (F.fromBytes p) with
  | none => rw [Option.getD_none]
  | some p₀ =>
    have hhash : F.fromBytes p₀ = F.fromBytes p := hs.blobs _ _ hb
    have hp : p₀ = p := F.hash_injective (congrArg Digest.encoded hhash)
    rw [hp, Option.getD_some]

theorem fsPut_kept (hs : Sound F s) (h : fsPut F cfg m s = (s', none)) :
    (s'.revisions (F.fromBytes m.payload.2) = true ∧
      s'.blobs (F.fromBytes m.payload.2) = some m.payload.2) ∧
      (versioned m).schemaVersion = 2 := by
  rcases fsPut_eq F cfg m s with ⟨e, he⟩ | ⟨he, hver⟩
  · rw [he] at h
    cases h
  · rw [he] at h
    cases h
    exact ⟨linkRevision_kept hs, hver⟩

theorem dbPutManifest_kept (h : dbPutManifest cfg m d p s = (s', none)) :
    s'.db.repository = true ∧ (s'.db.manifests d).isSome ∧ (versioned m).schemaVersion = 2 := by
  obtain ⟨db', hs', hput⟩ := dbPutManifest_put cfg m d p s
  rw [h] at hs' hput
  have hdb : s'.db = db' := by rw [show s' = _ from hs']
  rw [hdb]
  exact hput.ok rfl

/-- The tag points to the upload. -/
theorem tagStages_tagged {t} (h : tagStages cfg d (.tag t) s = (s', none)) :
    (cfg.useDatabase = false → s'.current t = some d) ∧
      (cfg.useDatabase = true → s'.db.tags t = some d) := by
  obtain ⟨s₁, h₁, h₂⟩ := andThen_ok h
  constructor
  · intro hcfg
    rw [Stage.when, if_pos (cfg.writes hcfg)] at h₁
    simp only [hcfg, Stage.when, Bool.false_eq_true, if_false] at h₂
    cases h₁
    cases h₂
    exact update_self ..
  · intro hcfg
    rw [Stage.when, if_pos hcfg, dbTagManifest] at h₂
    cases hrow : s₁.db.manifests d with
    | none =>
      rw [hrow] at h₂
      cases h₂
    | some row =>
      rw [hrow] at h₂
      cases h₂
      exact update_self ..

/-- INTERNAL: what an upload that succeeds has stored. -/
theorem putStages_kept (hs : Sound F s)
    (h : putStages F cfg reference m (F.fromBytes m.payload.2) m.payload.2 s = (s', none)) :
    Kept cfg (F.fromBytes m.payload.2) m.payload.2 reference s' ∧
      (versioned m).schemaVersion = 2 := by
  obtain ⟨s₁, h₁, hrest⟩ := andThen_ok h
  obtain ⟨s₂, h₂, h₃⟩ := andThen_ok hrest
  have hgrow : Grows reference.tag? s₂ s' := tagStages_grows.of_eq h₃
  have htag : ∀ t, reference = .tag t →
      (cfg.useDatabase = false → s'.current t = some (F.fromBytes m.payload.2)) ∧
        (cfg.useDatabase = true → s'.db.tags t = some (F.fromBytes m.payload.2)) := by
    intro t ht
    rw [ht] at h₃
    exact tagStages_tagged h₃
  cases hcfg : cfg.useDatabase with
  | false =>
    rw [Stage.when, if_pos (cfg.writes hcfg)] at h₁
    simp only [hcfg, Stage.when, Bool.false_eq_true, if_false, Prod.mk.injEq, and_true] at h₂
    subst h₂
    obtain ⟨⟨hrev, hblob⟩, hver⟩ := fsPut_kept hs h₁
    exact ⟨{
      revision := fun _ => ⟨hgrow.revisions _ hrev, hgrow.blobs _ _ hblob⟩
      row := fun h => absurd (h.symm.trans hcfg) (by decide)
      current := fun _ t ht => (htag t ht).1 hcfg
      tag := fun h => absurd (h.symm.trans hcfg) (by decide) }, hver⟩
  | true =>
    rw [Stage.when, if_pos hcfg] at h₂
    obtain ⟨hrepo, hrow, hver⟩ := dbPutManifest_kept h₂
    obtain ⟨row, hrow⟩ := Option.isSome_iff_exists.1 hrow
    exact ⟨{
      revision := fun h => absurd (h.symm.trans hcfg) (by decide)
      row := fun _ =>
        ⟨hgrow.repository hrepo, Option.isSome_iff_exists.2 ⟨row, hgrow.rows _ _ hrow⟩⟩
      current := fun h => absurd (h.symm.trans hcfg) (by decide)
      tag := fun _ t ht => (htag t ht).2 hcfg }, hver⟩

theorem Decodes.payload_eq (h : Decodes F p t m) : m.payload.2 = p := by
  cases h <;> rfl

/-- **What is known after an upload is answered with 201.** -/
theorem created_spec (hs : Sound F s) (h : putManifest F cfg q s = (s', .created d)) :
    ∃ m, Decodes F q.body (uploadType F q) m ∧ (versioned m).schemaVersion = 2 ∧
      d = F.fromBytes q.body ∧ Kept cfg d q.body q.reference s' := by
  obtain ⟨m, hm, -, hstages⟩ := putManifest_created h
  rcases unmarshalManifest_ok hm with ⟨all, canonical, rfl⟩ | ⟨hdec, rfl⟩
  · -- schema 1 is refused by either store
    exfalso
    obtain ⟨s₁, h₁, hrest⟩ := andThen_ok hstages
    obtain ⟨s₂, h₂, -⟩ := andThen_ok hrest
    cases hcfg : cfg.useDatabase with
    | false =>
      rw [Stage.when, if_pos (cfg.writes hcfg)] at h₁
      cases h₁
    | true =>
      rw [Stage.when, if_pos hcfg] at h₂
      cases h₂
  · rw [← hdec.payload_eq] at hstages ⊢
    obtain ⟨hkept, hver⟩ := putStages_kept hs hstages
    exact ⟨m, hdec.payload_eq.symm ▸ hdec, hver, rfl, hkept⟩

/-! ## Later -/

/-- An action that neither removes the manifest `d` nor moves or removes the tag it is asked
for by. -/
def Spares (d : Digest) (r : Reference) : Action Bytes → Prop
  | .put q => ∀ t, r = .tag t → q.reference ≠ .tag t
  | .upload _ => True
  | .erase (.blob d') => d' ≠ d
  | .erase (.revision d') => d' ≠ d
  | .erase (.row d') => d' ≠ d
  | .erase (.current t) => r ≠ .tag t
  | .erase (.tag t) => r ≠ .tag t
  | .erase (.layer _) => True
  | .erase (.repositoryBlob _) => True

theorem uploadBlob_grows : Grows none s (uploadBlob F cfg p s) := by
  unfold uploadBlob
  by_cases hdb : cfg.useDatabase <;> simp only [hdb]
  · exact { Grows.refl s with blobs := fun _ _ h => update_getD_some h, repository := fun _ => rfl }
  · exact { Grows.refl s with blobs := fun _ _ h => update_getD_some h }

/-- It is kept unless it is erased. -/
theorem erase_kept {e} (h : Kept cfg d p r s) (hspares : Spares d r (.erase e : Action Bytes)) :
    Kept cfg d p r (erase s e) := by
  cases e with
  | blob d' =>
    exact { h with
      revision := fun hcfg =>
        ⟨(h.revision hcfg).1, (update_of_ne (Ne.symm hspares) _ _).trans (h.revision hcfg).2⟩ }
  | layer d' => exact { h with }
  | revision d' =>
    exact { h with
      revision := fun hcfg =>
        ⟨(update_of_ne (Ne.symm hspares) _ _).trans (h.revision hcfg).1, (h.revision hcfg).2⟩ }
  | current t' =>
    refine { h with current := fun hcfg t ht => ?_ }
    have hne : t ≠ t' := fun htt => hspares (htt ▸ ht)
    exact (update_of_ne hne _ _).trans (h.current hcfg t ht)
  | row d' =>
    refine { h with row := fun hcfg => ⟨(h.row hcfg).1, ?_⟩, tag := fun hcfg t ht => ?_ }
    · show (update s.db.manifests d' none d).isSome
      rw [update_of_ne (Ne.symm hspares)]
      exact (h.row hcfg).2
    · have htags : s.db.tags t = some d := h.tag hcfg t ht
      show (if s.db.tags t = some d' then none else s.db.tags t) = some d
      rw [htags, if_neg fun hd => hspares (Option.some.inj hd).symm]
  | tag t' =>
    refine { h with tag := fun hcfg t ht => ?_ }
    have hne : t ≠ t' := fun htt => hspares (htt ▸ ht)
    exact (update_of_ne hne _ _).trans (h.tag hcfg t ht)
  | repositoryBlob d' => exact { h with }

/-- **A manifest is found until it is removed or its tag is moved.** -/
theorem Kept.reach (h : Kept cfg d p r s)
    (hreach : Reach (step F cfg) (fun _ a => Spares d r a) s s') : Kept cfg d p r s' := by
  apply hreach.invariant h
  intro s a s' _ hs hspares hstep
  cases a <;> simp only [step, Option.some.injEq] at hstep <;> subst hstep
  case put q =>
    apply hs.grows (putManifest_grows q s)
    intro t ht heq
    cases hr : q.reference with
    | digest d' =>
      rw [hr] at heq
      cases heq
    | tag t' =>
      rw [hr, Reference.tag?, Option.some.injEq] at heq
      exact hspares t ht (heq ▸ hr)
  case upload p' => exact hs.grows uploadBlob_grows (fun _ _ => nofun)
  case erase e => exact erase_kept hs hspares

/-! ## Fetching -/

def answer (F : Formats Bytes) (cfg : Config Bytes) (g : GetRequest) (s : Store Bytes)
    (d : Digest) : Except GetError (Manifest Bytes) → Response Bytes
  | .error e => getFailure e
  | .ok m => respond F cfg g s m d

theorem newDigest_fromBytes (p : Bytes) : newDigest (some (F.fromBytes p)) = some (F.fromBytes p) :=
  rfl

variable {g : GetRequest}

theorem getManifest_eq {found}
    (hr : g.reference = .digest d ∨ ∃ t, g.reference = .tag t) (hetag : g.ifNoneMatch = [])
    (hget : getByDigest F cfg [] s d = found)
    (htag : ∀ t, g.reference = .tag t → getByTag F cfg [] s t = found.map fun m => (m, d)) :
    getManifest F cfg g s = answer F cfg g s d found := by
  rcases hr with hr | ⟨t, hr⟩ <;> rw [getManifest, hr, hetag] <;> dsimp only
  · rw [hget]
    cases found <;> rfl
  · rw [htag t hr]
    cases found <;> rfl

section

variable (h : Kept cfg (F.fromBytes p) p g.reference s)
  (hr : g.reference = .digest (F.fromBytes p) ∨ ∃ t, g.reference = .tag t)
  (hetag : g.ifNoneMatch = [])
include h hr hetag

theorem getManifest_fs (hcfg : cfg.useDatabase = false) :
    getManifest F cfg g s = answer F cfg g s (F.fromBytes p) (fsPayloadToManifest F p) := by
  have hget : getByDigest F cfg [] s (F.fromBytes p) = fsPayloadToManifest F p := by
    simp [getByDigest, etagMatch, hcfg, fsGet, manifestLink, (h.revision hcfg).1,
      (h.revision hcfg).2]
  refine getManifest_eq hr hetag hget fun t ht => ?_
  simp [getByTag, hcfg, h.current hcfg t ht, hget]

theorem getManifest_db (hs : Sound F s) (hcfg : cfg.useDatabase = true) :
    ∃ row, row.payload = p ∧ RowSound F (F.fromBytes p) row ∧
      getManifest F cfg g s = answer F cfg g s (F.fromBytes p) (dbPayloadToManifest F row) := by
  obtain ⟨hrepo, hrow⟩ := h.row hcfg
  obtain ⟨row, hrow⟩ := Option.isSome_iff_exists.1 hrow
  have hsound : RowSound F (F.fromBytes p) row := hs.rows _ _ hrow
  refine ⟨row, F.hash_injective (congrArg Digest.encoded hsound.digest), hsound,
    getManifest_eq hr hetag ?_ fun t ht => ?_⟩
  · simp [getByDigest, etagMatch, hcfg, hrepo, newDigest_fromBytes, hrow]
  · simp [getByTag, etagMatch, hcfg, hrepo, h.tag hcfg t ht, hrow]

end

theorem respond_typed (h : Decodes F p t m)
    (htype : (versioned m).mediaType ≠ .empty ∨ t = .imageManifest) (hacc : t ∈ g.accepted F) :
    respond F cfg g s m d = .ok t d p := by
  cases h with
  | schema2 _ ht => simp [respond, storageType, serve, Manifest.payload, ht]
  | oci _ _ => simp [respond, storageType, serve, Manifest.payload, supports, hacc]
  | list _ ht => simp [respond, storageType, serve, Manifest.payload, supports, ht, hacc]
  | index _ ht =>
    have hidx := ht.resolve_left (htype.resolve_right (by decide))
    simp [respond, storageType, serve, Manifest.payload, supports, hidx, hacc]

/-- **A list that names no type is answered as if it were schema 1.** -/
theorem respond_untyped {l} (hl : l.versioned.mediaType = .empty) :
    respond F cfg g s (.list l p) d =
      .failed [.manifestInvalid "Schema 1 manifest not supported"] := by
  simp [respond, storageType, hl]

/-- A payload with its media type is read back. -/
theorem fsPayloadToManifest_named (h : Decodes F p t m) (hver : (versioned m).schemaVersion = 2)
    (hne : (versioned m).mediaType ≠ .empty) : fsPayloadToManifest F p = .ok m := by
  unfold fsPayloadToManifest
  rw [h.versioned_eq]
  dsimp only
  rw [hver, if_neg (by decide), if_pos rfl, h.type_eq hne]
  cases h with
  | schema2 hm ht => simp [decoded, schema2UnmarshalJSON, hm, ht]
  | oci hm ht => simp [decoded, (Decodes.oci hm ht).ocischema_eq]
  | list hl ht | index hl ht =>
    simp [decodedList, decoded, manifestListUnmarshalJSON, hl, Except.map]

/-- A row with its media type is read back. -/
theorem dbPayloadToManifest_named (hrow : RowSound F d row) (h : Decodes F row.payload t m)
    (hne : (versioned m).mediaType ≠ .empty) : dbPayloadToManifest F row = .ok m := by
  obtain ⟨t', m', h', hmedia, -⟩ := hrow.decodes
  have hver : versioned m' = versioned m :=
    Option.some.inj (h'.versioned_eq.symm.trans h.versioned_eq)
  have hrowType : row.mediaType = t := by
    rw [hmedia, ← h.type_eq hne, ← hver]
    cases h' with
    | schema2 _ _ | oci _ _ => rfl
    | list _ ht => simp [rowType, listMediaType, versioned, ht]
    | index _ ht =>
      have hidx := ht.resolve_left (by rw [← hver] at hne; exact hne)
      simp [rowType, listMediaType, versioned, hidx]
  unfold dbPayloadToManifest
  rw [hrow.version, if_neg (by decide), if_neg (by decide), hrowType]
  cases h with
  | schema2 hm ht => simp [decoded, schema2UnmarshalJSON, hm, ht]
  | oci hm ht => simp [decoded, (Decodes.oci hm ht).ocischema_eq]
  | list hl ht | index hl ht =>
    simp [decodedList, decoded, manifestListUnmarshalJSON, hl, Except.map]

/-- Without one, it is an index. -/
theorem dbPayloadToManifest_unnamed (hrow : RowSound F d row) (h : Decodes F row.payload t m)
    (he : (versioned m).mediaType = .empty) :
    ∃ l, F.manifestList row.payload = some l ∧ l.manifests ≠ none ∧
      l.versioned.mediaType = .empty ∧
      dbPayloadToManifest F row = .ok (.list l row.payload) := by
  obtain ⟨t', m', h', hmedia, hfilled⟩ := hrow.decodes
  have hver : versioned m' = versioned m :=
    Option.some.inj (h'.versioned_eq.symm.trans h.versioned_eq)
  rw [← hver] at he
  have hknown : rowType m' ≠ .empty := fun hempty =>
    absurd (hempty ▸ hmedia ▸ hrow.known) (by decide)
  cases h' with
  | schema2 _ ht | oci _ _ => exact absurd he hknown
  | list _ ht => exact absurd (ht.symm.trans he) (by decide)
  | @index l hl ht =>
    refine ⟨l, hl, fun hnone => hfilled ?_, he, ?_⟩
    · simp [ManifestList.references, ManifestList.elements, hnone]
    have he' : l.versioned.mediaType = .empty := he
    have hrowType : row.mediaType = .imageIndex := by
      rw [hmedia, rowType, listMediaType, if_pos he']
    unfold dbPayloadToManifest
    rw [hrow.version, if_neg (by decide), if_neg (by decide), hrowType]
    simp [decodedList, decoded, manifestListUnmarshalJSON, hl, Except.map]

/-- Without one, it is an index, or the code panics. -/
theorem fsPayloadToManifest_unnamed {v} (hv : F.versioned p = some v)
    (hver : v.schemaVersion = 2) (he : v.mediaType = .empty) :
    (F.manifestList p = none ∧ fsPayloadToManifest F p = .error .panics) ∨
      (∃ l, F.manifestList p = some l ∧ l.manifests ≠ none ∧
        fsPayloadToManifest F p = .ok (.list l p)) ∨
      ∃ l, F.manifestList p = some l ∧ l.manifests = none ∧
        fsPayloadToManifest F p = decoded (ocischemaUnmarshalJSON F p) := by
  unfold fsPayloadToManifest manifestListUnmarshalJSON
  rw [hv]
  dsimp only
  rw [hver, if_neg (by decide), if_pos rfl, he]
  cases hl : F.manifestList p with
  | none => exact .inl ⟨rfl, rfl⟩
  | some l =>
    by_cases hm : l.manifests = none
    · exact .inr (Or.inr ⟨l, rfl, hm, by simp [hm]⟩)
    · exact .inr (Or.inl ⟨l, rfl, hm, by simp [hm]⟩)

/-! ## The round trip -/

/-- A later request by the digest or the tag of the upload that accepts its type is answered with
its bytes, digest and type. -/
def RoundTrips (F : Formats Bytes) (cfg : Config Bytes) (q : PutRequest Bytes) (d : Digest)
    (s : Store Bytes) : Prop :=
  ∀ g s', (g.reference = .digest d ∨ g.reference = q.reference) → g.ifNoneMatch = [] →
    uploadType F q ∈ g.accepted F →
    Reach (step F cfg) (fun _ a => Spares d g.reference a) s s' →
    getManifest F cfg g s' = .ok (uploadType F q) d q.body

/-- The payload names its media type; or it is an OCI image manifest, read from the filesystem, that
decodes as a list without manifests. -/
def TellsType (F : Formats Bytes) (cfg : Config Bytes) (q : PutRequest Bytes) : Prop :=
  (∃ v, F.versioned q.body = some v ∧ v.mediaType ≠ .empty) ∨
    (cfg.useDatabase = false ∧ uploadType F q = .imageManifest ∧
      ∃ l, F.manifestList q.body = some l ∧ l.manifests = none)

theorem mem_accepted_name (ht : t ∈ uploadTypes) :
    t ∈ GetRequest.accepted F ⟨r, [F.name t], []⟩ := by
  have hsplit : (F.name t).splitOn ',' = [F.name t] := by
    apply List.splitOnP_eq_singleton
    intro c hc
    have hne : c ≠ ',' := fun h => F.name_no_comma t ht (h ▸ hc)
    simp [hne]
  simp [GetRequest.accepted, hsplit, F.parse_name t ht]

theorem Kept.of_reference {r r'} (h : Kept cfg d p r s) (hr : r' = .digest d ∨ r' = r) :
    Kept cfg d p r' s := by
  rcases hr with rfl | rfl
  · exact ⟨h.revision, h.row, fun _ _ => nofun, fun _ _ => nofun⟩
  · exact h

/-- INTERNAL: what tells its type comes back. -/
theorem roundTrips_of_tellsType (hdec : Decodes F q.body (uploadType F q) m)
    (hver : (versioned m).schemaVersion = 2)
    (hkept : Kept cfg (F.fromBytes q.body) q.body q.reference s) (hs : Sound F s)
    (href : q.reference = .digest (F.fromBytes q.body) ∨ ∃ t, q.reference = .tag t)
    (htype : TellsType F cfg q) : RoundTrips F cfg q (F.fromBytes q.body) s := by
  intro g s' hg hetag hacc hreach
  have hkept' := (hkept.of_reference hg).reach hreach
  have hs' : Sound F s' := reach_sound hs hreach
  have hg' : g.reference = .digest (F.fromBytes q.body) ∨ ∃ t, g.reference = .tag t := by
    rcases hg with hg | hg
    · exact .inl hg
    · rw [hg]
      exact href
  have hserved : ∀ found, found = .ok m →
      (versioned m).mediaType ≠ .empty ∨ uploadType F q = .imageManifest →
      answer F cfg g s' (F.fromBytes q.body) found =
        .ok (uploadType F q) (F.fromBytes q.body) q.body := by
    intro found hfound ht
    rw [hfound]
    exact respond_typed hdec ht hacc
  rcases htype with ⟨v, hv, hne⟩ | ⟨hcfg, himage, l, hl, hnil⟩
  · -- the payload names its type
    have hvm : v = versioned m := Option.some.inj (hv.symm.trans hdec.versioned_eq)
    rw [hvm] at hne
    cases hcfg : cfg.useDatabase with
    | false =>
      rw [getManifest_fs hkept' hg' hetag hcfg]
      exact hserved _ (fsPayloadToManifest_named hdec hver hne) (Or.inl hne)
    | true =>
      obtain ⟨row, hp, hrow, hget⟩ := getManifest_db hkept' hg' hetag hs' hcfg
      rw [hget]
      rw [← hp] at hdec
      exact hserved _ (dbPayloadToManifest_named hrow hdec hne) (Or.inl hne)
  · -- an image manifest that cannot be taken for a list
    rw [getManifest_fs hkept' hg' hetag hcfg]
    by_cases hne : (versioned m).mediaType = .empty
    · have hfound : fsPayloadToManifest F q.body = .ok m := by
        rcases fsPayloadToManifest_unnamed hdec.versioned_eq hver hne with
          ⟨hnone, -⟩ | ⟨l', hl', hsome, -⟩ | ⟨l', hl', -, hfound⟩
        · rw [hl] at hnone
          cases hnone
        · rw [hl, Option.some.injEq] at hl'
          exact absurd (hl' ▸ hnil) hsome
        · rw [hfound]
          rw [himage] at hdec
          rw [hdec.ocischema_eq, decoded]
      exact hserved _ hfound (Or.inr himage)
    · exact hserved _ (fsPayloadToManifest_named hdec hver hne) (Or.inl hne)

theorem answer_decoded_ne :
    answer F cfg g s d (decoded (ocischemaUnmarshalJSON F p)) ≠ .ok .imageIndex d p := by
  unfold ocischemaUnmarshalJSON
  cases F.ocischema p with
  | none => simp [decoded, answer, getFailure]
  | some m =>
    by_cases hv : m.versioned.mediaType ≠ .empty ∧ m.versioned.mediaType ≠ .imageManifest
    · simp [hv, decoded, answer, getFailure]
    · simp only [hv, if_false, decoded, answer, respond, storageType]
      split <;> simp [serve, Manifest.payload]

/-- INTERNAL: what does not is refused. -/
theorem answer_ne_of_not_tellsType (hdec : Decodes F q.body (uploadType F q) m)
    (hver : (versioned m).schemaVersion = 2)
    (hkept : Kept cfg (F.fromBytes q.body) q.body g.reference s) (hs : Sound F s)
    (href : g.reference = .digest (F.fromBytes q.body)) (hetag : g.ifNoneMatch = [])
    (htype : ¬TellsType F cfg q) :
    getManifest F cfg g s ≠ .ok (uploadType F q) (F.fromBytes q.body) q.body := by
  have he : (versioned m).mediaType = .empty := by
    by_contra hne
    exact htype (Or.inl ⟨_, hdec.versioned_eq, hne⟩)
  cases hcfg : cfg.useDatabase with
  | true =>
    obtain ⟨row, hp, hrow, hget⟩ := getManifest_db hkept (.inl href) hetag hs hcfg
    rw [← hp] at hdec
    obtain ⟨l, -, -, hl, hfound⟩ := dbPayloadToManifest_unnamed hrow hdec he
    rw [hget, hfound, answer, respond_untyped hl]
    nofun
  | false =>
    rw [getManifest_fs hkept (.inl href) hetag hcfg]
    rcases fsPayloadToManifest_unnamed hdec.versioned_eq hver he with
      ⟨-, hfound⟩ | ⟨l, hl, -, hfound⟩ | ⟨l, hl, hnil, hfound⟩
    · rw [hfound, answer, getFailure]
      nofun
    · have hversioned : l.versioned = versioned m :=
        Option.some.inj ((F.manifestList_versioned _ _ hl).symm.trans hdec.versioned_eq)
      rw [hfound, answer, respond_untyped (hversioned ▸ he)]
      nofun
    · rcases hdec.untyped he with ht | ht
      · exact absurd (Or.inr ⟨hcfg, ht, l, hl, hnil⟩) htype
      · rw [hfound, ht]
        exact answer_decoded_ne

/-- **PUT then GET is a round trip exactly for the payloads that tell their type.** -/
theorem round_trip_iff {s s' : Store Bytes} {q : PutRequest Bytes} {d : Digest}
    (hs : Reach (step F cfg) (fun _ _ => True) Store.empty s)
    (hput : putManifest F cfg q s = (s', .created d)) :
    RoundTrips F cfg q d s' ↔ TellsType F cfg q := by
  have hsound : Sound F s := reach_sound empty_sound hs
  have hsound' : Sound F s' := by
    have hkeeps : Sound F (putManifest F cfg q s).1 := putManifest_sound hsound
    rwa [hput] at hkeeps
  obtain ⟨m, hdec, hver, hd, hkept⟩ := created_spec hsound hput
  obtain ⟨-, -, href, -⟩ := putManifest_created hput
  subst hd
  constructor
  · intro htrip
    by_contra htype
    have hmem : uploadType F q ∈ uploadTypes := hdec.mem_uploadTypes
    have hget := htrip ⟨.digest (F.fromBytes q.body), [F.name (uploadType F q)], []⟩ s'
      (Or.inl rfl) rfl (mem_accepted_name hmem) Reach.init
    exact answer_ne_of_not_tellsType hdec hver (hkept.of_reference (Or.inl rfl)) hsound' rfl rfl
      htype hget
  · exact roundTrips_of_tellsType hdec hver hkept hsound' href

/-- Three payloads: an OCI index that does not name its type, one that does, and the image that is
the member of both. -/
def payloads : ℕ → Option Versioned
  | 0 => some ⟨2, .empty⟩
  | 1 => some ⟨2, .imageIndex⟩
  | 2 => some ⟨2, .imageManifest⟩
  | _ => none

def blobOf (t : MediaType) (p : ℕ) : Descriptor := ⟨t, some ⟨.sha256, p⟩, []⟩

def typeName : MediaType → String
  | .manifestV2 => "application/vnd.docker.distribution.manifest.v2+json"
  | .manifestList => "application/vnd.docker.distribution.manifest.list.v2+json"
  | .imageManifest => "application/vnd.oci.image.manifest.v1+json"
  | .imageIndex => "application/vnd.oci.image.index.v1+json"
  | _ => ""

/-- Formats with these payloads; a structure is filled from the fields it has. -/
def indexFormats : Formats ℕ where
  hash := id
  hash_injective := Function.injective_id
  size := id
  versioned := payloads
  schema2 := fun p => (payloads p).map fun v => ⟨v, blobOf .dockerConfig 3, []⟩
  ocischema := fun p => (payloads p).map fun v => ⟨v, blobOf .ociConfig 3, []⟩
  manifestList := fun p =>
    (payloads p).map fun v => ⟨v, some [⟨blobOf .imageManifest 2, "amd64", "linux"⟩]⟩
  schema2_versioned := by
    intro p m h
    cases hv : payloads p <;> simp [hv] at h
    rw [← h]
  ocischema_versioned := by
    intro p m h
    cases hv : payloads p <;> simp [hv] at h
    rw [← h]
  manifestList_versioned := by
    intro p l h
    cases hv : payloads p <;> simp [hv] at h
    rw [← h]
  signed := fun _ => none
  parseMediaType := fun h => uploadTypes.find? fun t => (typeName t).toList = h
  name := fun t => (typeName t).toList
  parse_name := by decide +kernel
  name_no_comma := by decide +kernel

def metadataIn (useDatabase : Bool) : Config ℕ where
  useDatabase := useDatabase
  writeFSMetadata := !useDatabase
  writes := by
    intro h
    rw [h]
    rfl
  isCache := false
  validURL := fun _ => true
  applyResourcePolicy := fun _ => none

/-- Upload one of the payloads as an OCI index, with a tag. -/
def putIndex (p : ℕ) : PutRequest ℕ := ⟨.tag 0, indexFormats.name .imageIndex, p⟩

/-- The configuration and the image have been uploaded. -/
def imageStored (useDatabase : Bool) : Store ℕ :=
  let cfg := metadataIn useDatabase
  (putManifest indexFormats cfg ⟨.tag 1, indexFormats.name .imageManifest, 2⟩
    (uploadBlob indexFormats cfg 3 Store.empty)).1

/-- INTERNAL: this is a state of the repository. -/
theorem reach_imageStored (useDatabase : Bool) :
    Reach (step indexFormats (metadataIn useDatabase)) (fun _ _ => True) Store.empty
      (imageStored useDatabase) :=
  (Reach.init.next (a := .upload 3) trivial rfl).next (a := .put _) trivial rfl

/-- An index that names its type makes the round trip. -/
theorem typed_index_round_trip :
    (putManifest indexFormats (metadataIn true) (putIndex 1) (imageStored true)).2 =
        .created ⟨.sha256, 1⟩ ∧
      RoundTrips indexFormats (metadataIn true) (putIndex 1) ⟨.sha256, 1⟩
        (putManifest indexFormats (metadataIn true) (putIndex 1) (imageStored true)).1 := by
  have hput : (putManifest indexFormats (metadataIn true) (putIndex 1) (imageStored true)).2 =
      .created ⟨.sha256, 1⟩ := by decide +kernel
  exact ⟨hput, (round_trip_iff (reach_imageStored true) (Prod.ext rfl hput)).2
    (Or.inl ⟨_, rfl, by decide⟩)⟩

/-- The upload of a payload, and a request for it that accepts the type of the upload. -/
def putThenGet (useDatabase : Bool) (p : ℕ) (reference : Reference) : Response ℕ × Response ℕ :=
  let cfg := metadataIn useDatabase
  let put := putManifest indexFormats cfg (putIndex p) (imageStored useDatabase)
  (put.2, getManifest indexFormats cfg ⟨reference, [(putIndex p).contentType], []⟩ put.1)

/-- **An index that does not name its type is accepted and cannot be fetched**, from neither store.
-/
theorem untyped_index_not_served :
    [putThenGet false 0 (.digest ⟨.sha256, 0⟩), putThenGet false 0 (.tag 0),
      putThenGet true 0 (.digest ⟨.sha256, 0⟩), putThenGet true 0 (.tag 0)] =
    List.replicate 4
      (.created ⟨.sha256, 0⟩, .failed [.manifestInvalid "Schema 1 manifest not supported"]) := by
  decide +kernel

/-! ## What is served -/

theorem fsPayloadToManifest_payload (h : fsPayloadToManifest F p = .ok m) : m.payload.2 = p := by
  unfold fsPayloadToManifest schema2UnmarshalJSON ocischemaUnmarshalJSON decodedList
    manifestListUnmarshalJSON at h
  repeat' split at h
  all_goals cases h <;> rfl

theorem dbPayloadToManifest_payload {row : Row Bytes} (h : dbPayloadToManifest F row = .ok m) :
    m.payload.2 = row.payload := by
  unfold dbPayloadToManifest schema2UnmarshalJSON ocischemaUnmarshalJSON decodedList
    manifestListUnmarshalJSON at h
  repeat' split at h
  all_goals cases h <;> rfl

section

variable (hs : Sound F s)
include hs

theorem getByDigest_digest {etags} (h : getByDigest F cfg etags s d = .ok m) :
    F.fromBytes m.payload.2 = d := by
  unfold getByDigest newDigest fsGet at h
  repeat' split at h
  all_goals grind [fsPayloadToManifest_payload, dbPayloadToManifest_payload, Sound, RowSound]

theorem getByTag_digest {etags tag} (h : getByTag F cfg etags s tag = .ok (m, d)) :
    F.fromBytes m.payload.2 = d := by
  unfold getByTag Except.map at h
  repeat' split at h
  all_goals grind [getByDigest_digest, dbPayloadToManifest_payload, Sound, RowSound]

theorem respond_digest {d'} (hm : F.fromBytes m.payload.2 = d)
    (h : respond F cfg g s m d = .ok t d' p) :
    F.fromBytes p = d' ∧ (g.reference.tag? = none → d' = d) := by
  unfold respond rewriteManifestList serve at h
  dsimp only at h
  repeat' split at h
  all_goals grind [getByDigest_digest]

end

/-- **What is served has the digest it is served under**, in every state and from either store, also
when an image is served in place of a list. A request by digest gets this digest. -/
theorem served_addressed {ok : Store Bytes → Action Bytes → Prop}
    (hs : Reach (step F cfg) ok Store.empty s) (h : getManifest F cfg g s = .ok t d p) :
    F.fromBytes p = d ∧ ∀ d', g.reference = .digest d' → d = d' := by
  have hsound : Sound F s := reach_sound empty_sound hs
  unfold getManifest getFailure at h
  repeat' split at h
  all_goals try cases h
  next hr _ _ _ hget =>
    have hd := respond_digest hsound (getByTag_digest hsound hget) h
    exact ⟨hd.1, fun d' hr' => by rw [hr] at hr'; cases hr'⟩
  next hr _ _ hget =>
    have hd := respond_digest hsound (getByDigest_digest hsound hget) h
    exact ⟨hd.1, fun d' hr' => by grind [Reference.tag?]⟩

/-- An index is served by its tag. -/
theorem index_served : (putThenGet true 1 (.tag 0)).2 = .ok .imageIndex ⟨.sha256, 1⟩ 1 ∧
    indexFormats.fromBytes 1 = ⟨.sha256, 1⟩ := by
  have hget : (putThenGet true 1 (.tag 0)).2 = .ok .imageIndex ⟨.sha256, 1⟩ 1 := by decide +kernel
  have hreach := (reach_imageStored true).next (a := .put (putIndex 1)) trivial rfl
  exact ⟨hget, (served_addressed hreach
    (g := ⟨.tag 0, [(putIndex 1).contentType], []⟩) hget).1⟩

end ContainerRegistry.Analysis.Manifests
