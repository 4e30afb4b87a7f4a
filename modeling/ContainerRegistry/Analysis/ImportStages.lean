import ContainerRegistry.Model.Importer

/-!
# What the stages of an import write

`Importable` are the manifests that the importer can write, told from the filesystem alone. In a
`Sound` database every row is as the importer would write it. `Ends` is what becomes of one image,
and `Solid` what has been done for a manifest by the time its row is seen again. Every stage keeps
the database sound, adds rows (`Grows`) and leaves new manifests solid (`Builds`).
-/

namespace ContainerRegistry.Analysis.Imports

open Library Model.Imports List Stage
open Model (Digest TagName)
open Model.Manifests (MediaType Versioned)

variable {Bytes : Type} {imp : Importer} {fs : Filesystem Bytes}

/-! ## The manifests that can be imported -/

/-- The image manifest at a digest, with the version that is written. -/
def imageAt (fs : Filesystem Bytes) (d : Digest) : Option (Versioned × Image Bytes) :=
  match fs.manifest d with
  | some (.schema2 m) => some (m.versioned, m)
  | some (.ocischema m) => some (ociVersion m.versioned, m)
  | _ => none

def listAt (fs : Filesystem Bytes) (d : Digest) : Option (ManifestList Bytes) :=
  match fs.manifest d with
  | some (.list l) => some l
  | _ => none

/-- The database can store the blob: it has a code for the digest and a row for the media
type. -/
def Storable (b : Descriptor) : Prop := newDigest b.digest = none ∧ mapMediaType b.mediaType = none

instance (b : Descriptor) : Decidable (Storable b) := inferInstanceAs (Decidable (_ ∧ _))

/-- The image manifest at `d` can be written: its configuration can be read and stored, and so
can the manifest. -/
structure Importable (fs : Filesystem Bytes) (d : Digest) (v : Versioned) (m : Image Bytes) :
    Prop where
  image : imageAt fs d = some (v, m)
  payload : (fs.blob m.config.digest).isSome
  config : Storable m.config
  digest : newDigest d = none
  mediaType : mapMediaType v.mediaType = none

structure ListImportable (fs : Filesystem Bytes) (d : Digest) (l : ManifestList Bytes) :
    Prop where
  list : listAt fs d = some l
  digest : newDigest d = none
  mediaType : mapMediaType (listRow d l).mediaType = none

def Writable (fs : Filesystem Bytes) (d : Digest) : Prop :=
  (∃ v m, Importable fs d v m) ∨ ∃ l, ListImportable fs d l

variable {d : Digest}

/-- What can be written is there, and not of schema 1. -/
theorem Writable.manifest (h : Writable fs d) : ∃ mm, fs.manifest d = some mm ∧ mm ≠ .schema1 := by
  rcases h with ⟨v, m, hi⟩ | ⟨l, hl⟩
  · have himage := hi.image
    unfold imageAt at himage
    split at himage <;> simp_all
  · have hlist := hl.list
    unfold listAt at hlist
    split at hlist <;> simp_all

/-- The digest of what can be written has a code. -/
theorem Writable.digest (h : Writable fs d) : newDigest d = none := by
  rcases h with ⟨v, m, hi⟩ | ⟨l, hl⟩
  · exact hi.digest
  · exact hl.digest

variable {m : Image Bytes} {v : Versioned}

/-- What is an image is no list. -/
theorem listAt_of_imageAt (h : imageAt fs d = some (v, m)) : listAt fs d = none := by
  unfold imageAt at h
  unfold listAt
  split at h <;> simp_all

/-- Nothing is an image and a list. -/
theorem not_listAt (himage : imageAt fs d = some (v, m)) {l} (hlist : listAt fs d = some l) :
    False := by
  cases (listAt_of_imageAt himage).symm.trans hlist

/-! ## Databases that grow -/

structure Grows (a b : Database Bytes) : Prop where
  repository : a.repository = true → b.repository = true
  blobs : a.blobs ⊆ b.blobs
  links : a.links ⊆ b.links
  manifests : a.manifests ⊆ b.manifests
  layers : a.layers ⊆ b.layers
  references : a.references ⊆ b.references
  tags : a.tags ⊆ b.tags

/-- No row has to be added. -/
theorem Grows.refl (a : Database Bytes) : Grows a a :=
  ⟨id, List.Subset.refl _, List.Subset.refl _, List.Subset.refl _, List.Subset.refl _,
    List.Subset.refl _, List.Subset.refl _⟩

variable {a b c : Database Bytes}

/-- Rows are added to rows that were added. -/
theorem Grows.trans (h : Grows a b) (h' : Grows b c) : Grows a c :=
  ⟨h'.repository ∘ h.repository, List.Subset.trans h.blobs h'.blobs,
    List.Subset.trans h.links h'.links, List.Subset.trans h.manifests h'.manifests,
    List.Subset.trans h.layers h'.layers, List.Subset.trans h.references h'.references,
    List.Subset.trans h.tags h'.tags⟩

instance : IsPreorder (Database Bytes) Grows where
  refl := Grows.refl
  trans _ _ _ := Grows.trans

/-- What a table has, a larger one has too. -/
theorem any_of_subset {α : Type} {p : α → Bool} {l l' : List α} (h : l ⊆ l')
    (hl : l.any p = true) : l'.any p = true := by
  obtain ⟨x, hx, hp⟩ := any_eq_true.1 hl
  exact any_eq_true.2 ⟨x, h hx, hp⟩

/-- Manifests stay. -/
theorem Grows.hasManifest (h : Grows a b) : a.hasManifest d = true → b.hasManifest d = true :=
  any_of_subset h.manifests

/-- Layers stay. -/
theorem Grows.hasLayer (h : Grows a b) {m d} : a.hasLayer m d = true → b.hasLayer m d = true :=
  any_of_subset h.layers

section Tables

variable {α : Type} {found : Bool} {row x : α} {table : List α}

/-- No row is removed. -/
theorem subset_insertUnless : table ⊆ insertUnless found row table := by
  unfold insertUnless
  split
  · exact List.Subset.refl _
  · exact subset_cons_self _ _

/-- Every row is the new one or was there. -/
theorem mem_insertUnless (h : x ∈ insertUnless found row table) : x = row ∨ x ∈ table := by
  unfold insertUnless at h
  split at h
  · exact .inr h
  · exact mem_cons.1 h

/-- The key is there afterwards. -/
theorem any_insertUnless {p : α → Bool} (h : p row = true) :
    (insertUnless (table.any p) row table).any p = true := by
  unfold insertUnless
  split
  · assumption
  · rw [any_cons, h, Bool.true_or]

end Tables

variable (db : Database Bytes)

/-- A blob is added. -/
theorem grows_addBlob (b : Descriptor) : Grows db (db.addBlob b) :=
  { Grows.refl db with blobs := subset_insertUnless }

/-- A link is added. -/
theorem grows_addLink (d : Digest) : Grows db (db.addLink d) :=
  { Grows.refl db with links := subset_insertUnless }

/-- A manifest is added. -/
theorem grows_addManifest (row : ManifestRow Bytes) : Grows db (db.addManifest row) :=
  { Grows.refl db with manifests := subset_cons_self _ _ }

/-- A layer is added. -/
theorem grows_addLayer (m : Digest) (b : Descriptor) : Grows db (db.addLayer m b) :=
  { Grows.refl db with layers := subset_insertUnless }

/-- A reference is added. -/
theorem grows_addReference (p c : Digest) : Grows db (db.addReference p c) :=
  { Grows.refl db with references := subset_insertUnless }

/-- The repository is added. -/
theorem grows_addRepository : Grows db db.addRepository :=
  { Grows.refl db with repository := fun _ => rfl }

/-! ## Rows that are there -/

/-- The layer is there afterwards. -/
theorem hasLayer_addLayer (m : Digest) (b : Descriptor) :
    (db.addLayer m b).hasLayer m b.digest = true :=
  any_insertUnless (by simp)

/-- The reference is there afterwards. -/
theorem mem_references_addReference (p c : Digest) : (p, c) ∈ (db.addReference p c).references := by
  by_cases h : (p, c) ∈ db.references <;> simp [Database.addReference, insertUnless, h]

/-- The tag is there afterwards. -/
theorem mem_tags_putTag (name : TagName) (d : Digest) : (name, d) ∈ (db.putTag name d).tags := by
  by_cases h : (name, d) ∈ db.tags <;> simp [Database.putTag, h]

/-- The manifest is there afterwards. -/
theorem hasManifest_addManifest (row : ManifestRow Bytes) :
    (db.addManifest row).hasManifest row.digest = true := by
  simp [Database.addManifest, Database.hasManifest]

variable {b : Descriptor} {db : Database Bytes}

/-- A tag that is there is not put. -/
theorem putTag_of_mem {name} (h : (name, d) ∈ db.tags) : db.putTag name d = db := by
  simp [Database.putTag, h]

/-- A tag is the one that was put, or was there. -/
theorem mem_putTag {name t} (h : t ∈ (db.putTag name d).tags) : t = (name, d) ∨ t ∈ db.tags := by
  unfold Database.putTag at h
  split at h
  · exact .inr h
  · exact (mem_cons.1 h).imp_right fun h => (mem_filter.1 h).1

/-! ## Sound databases -/

/-- Every row comes from the filesystem: blobs can be stored, manifests can be written, a layer is
one of its manifest, the child of a list is a member, and a tag points to its manifest. -/
structure Sound (fs : Filesystem Bytes) (db : Database Bytes) : Prop where
  blobs : ∀ b ∈ db.blobs, Storable b
  manifests : ∀ r ∈ db.manifests, Writable fs r.digest
  layers : ∀ l ∈ db.layers, ∃ v m, imageAt fs l.manifest = some (v, m) ∧
    ∃ b ∈ m.layers, b.digest = l.blob.digest ∧ Storable b
  references : ∀ p c, (p, c) ∈ db.references → (∃ l, listAt fs p = some l ∧ c ∈ l.manifests) ∧
    (∃ v m, Importable fs c v m) ∧ db.hasManifest c = true
  tags : ∀ name d, (name, d) ∈ db.tags → (∃ names, fs.tags = some names ∧ name ∈ names) ∧
    fs.target name = some d ∧ db.hasManifest d = true

/-- A manifest with a row can be written. -/
theorem Sound.writable (h : Sound fs db) (hd : db.hasManifest d = true) : Writable fs d := by
  obtain ⟨r, hr, hrd⟩ := any_eq_true.1 hd
  rw [decide_eq_true_eq] at hrd
  exact hrd ▸ h.manifests r hr

/-- Soundness is kept by a blob. -/
theorem Sound.addBlob (h : Sound fs db) (hb : Storable b) : Sound fs (db.addBlob b) :=
  { h with
    blobs := fun x hx => by
      rcases mem_insertUnless hx with rfl | hx
      · exact hb
      · exact h.blobs x hx }

/-- Soundness is kept by a link. -/
theorem Sound.addLink (h : Sound fs db) (d : Digest) : Sound fs (db.addLink d) := { h with }

/-- Soundness is kept by the repository. -/
theorem Sound.addRepository (h : Sound fs db) : Sound fs db.addRepository := { h with }

variable {row : ManifestRow Bytes}

/-- Soundness is kept by a manifest that can be written. -/
theorem Sound.addManifest (h : Sound fs db) (hrow : Writable fs row.digest) :
    Sound fs (db.addManifest row) where
  blobs := h.blobs
  manifests := fun r hr => by
    rcases mem_cons.1 hr with rfl | hr
    · exact hrow
    · exact h.manifests r hr
  layers := h.layers
  references := fun p c hpc => by
    obtain ⟨hp, hc, hrow⟩ := h.references p c hpc
    exact ⟨hp, hc, (grows_addManifest db row).hasManifest hrow⟩
  tags := fun name d hd => by
    obtain ⟨hname, htarget, hrow⟩ := h.tags name d hd
    exact ⟨hname, htarget, (grows_addManifest db row).hasManifest hrow⟩

/-- Soundness is kept by a layer of its image. -/
theorem Sound.addLayer (h : Sound fs db) (himage : imageAt fs d = some (v, m)) {b b' : Descriptor}
    (hb : b ∈ m.layers) (hsame : b'.digest = b.digest) (hstore : Storable b) :
    Sound fs (db.addLayer d b') :=
  { h with
    layers := fun l hl => by
      rcases mem_insertUnless hl with rfl | hl
      · exact ⟨v, m, himage, b, hb, hsame.symm, hstore⟩
      · exact h.layers l hl
    references := h.references
    tags := h.tags }

/-- Soundness is kept by a reference to a member. -/
theorem Sound.addReference (h : Sound fs db) {p c : Digest} {l : ManifestList Bytes}
    (hlist : listAt fs p = some l) (hc : c ∈ l.manifests) (himp : ∃ v m, Importable fs c v m)
    (hrow : db.hasManifest c = true) : Sound fs (db.addReference p c) :=
  { h with
    references := fun p' c' hpc => by
      rcases mem_insertUnless hpc with heq | hpc
      · cases heq
        exact ⟨⟨l, hlist, hc⟩, himp, hrow⟩
      · exact h.references p' c' hpc
    tags := h.tags }

/-- Every tag points where the filesystem says. -/
def Pointed (fs : Filesystem Bytes) (db : Database Bytes) : Prop :=
  ∀ t ∈ db.tags, fs.target t.1 = some t.2

/-- So it is in a sound database. -/
theorem Sound.pointed (h : Sound fs db) : Pointed fs db := fun t ht => (h.tags t.1 t.2 ht).2.1

/-- A new tag replaces none: all point where the filesystem says. -/
theorem Pointed.putTag_of_not_mem (h : Pointed fs db) {name} (htarget : fs.target name = some d)
    (hmem : (name, d) ∉ db.tags) : db.putTag name d = { db with tags := (name, d) :: db.tags } := by
  have hkept : db.tags.filter (fun t => t.1 ≠ name) = db.tags := by
    refine filter_eq_self.2 fun t ht => decide_eq_true ?_
    rintro rfl
    cases (h t ht).symm.trans htarget
    exact hmem ht
  simp only [Database.putTag, if_neg hmem, hkept]

/-- A tag that points where the filesystem says takes no row away. -/
theorem Pointed.grows_putTag (h : Pointed fs db) {name} (htarget : fs.target name = some d) :
    Grows db (db.putTag name d) := by
  by_cases hmem : (name, d) ∈ db.tags
  · rw [putTag_of_mem hmem]
    exact Grows.refl db
  · rw [h.putTag_of_not_mem htarget hmem]
    exact { Grows.refl db with tags := subset_cons_self _ _ }

/-- Soundness is kept by a tag, and no row is lost. -/
theorem Sound.putTag (h : Sound fs db) {name names}
    (hnames : fs.tags = some names) (hname : name ∈ names) (htarget : fs.target name = some d)
    (hrow : db.hasManifest d = true) :
    Sound fs (db.putTag name d) ∧ Grows db (db.putTag name d) := by
  refine ⟨{ h with references := h.references, tags := fun n e hne => ?_ },
    h.pointed.grows_putTag htarget⟩
  rcases mem_putTag hne with heq | hne
  · cases heq
    exact ⟨⟨names, hnames, hname⟩, htarget, hrow⟩
  · exact h.tags n e hne

/-! ## The stores -/

/-- The loaded blob has the digest asked for. -/
theorem loaded_digest (db : Database Bytes) (b : Descriptor) : (loaded db b).digest = b.digest := by
  unfold loaded
  cases h : db.blobs.find? (·.digest = b.digest) with
  | none => rfl
  | some x => simpa using List.find?_some h

/-- The loaded blob can be stored. -/
theorem storable_loaded (h : Sound fs db) (hb : Storable b) : Storable (loaded db b) := by
  unfold loaded
  cases hfind : db.blobs.find? (·.digest = b.digest) with
  | none => exact hb
  | some x => exact h.blobs x (List.mem_of_find?_eq_some hfind)

variable {I : State Bytes → Prop}

/-- A blob that can be stored is. -/
theorem createOrFindBlob_of_storable (hb : Storable b) (s : State Bytes) :
    createOrFindBlob b s = ({ s with db := s.db.addBlob b }, none) := by
  rw [createOrFindBlob, check_andThen_of_none hb.1, check_andThen_of_none hb.2]
  rfl

/-- A blob that cannot be stored is an error. -/
theorem createOrFindBlob_fails (hb : ¬ Storable b) : Fails I (createOrFindBlob b) := by
  cases hd : newDigest b.digest with
  | some e => exact (Fails.check hd).andThen
  | none =>
    cases ht : mapMediaType b.mediaType with
    | some e => exact .after_check hd (Fails.check ht).andThen
    | none => exact absurd ⟨hd, ht⟩ hb

/-- A blob is linked if its digest has a code. -/
theorem linkBlob_of_stored (hd : newDigest d = none) (s : State Bytes) :
    linkBlob d s = ({ s with db := s.db.addLink d }, none) := by
  rw [linkBlob, check_andThen_of_none hd]
  rfl

/-- A layer that can be stored gets its row. -/
theorem associateLayerBlob_of_storable (hb : Storable b) (m : Digest) (s : State Bytes) :
    associateLayerBlob m b s = ({ s with db := s.db.addLayer m b }, none) := by
  rw [associateLayerBlob, check_andThen_of_none hb.1, check_andThen_of_none hb.2]
  rfl

/-- A transfer writes no row. -/
@[simp] theorem transferBlob_db (imp : Importer) (d : Digest) (s : State Bytes) :
    (transferBlob imp d s).1.db = s.db := by
  unfold transferBlob
  split
  · split <;> rfl
  · rfl

/-! ## One manifest -/

def withLayer (db : Database Bytes) (m : Digest) (b : Descriptor) : Database Bytes :=
  ((db.addBlob b).addLayer m (loaded (db.addBlob b) b)).addLink b.digest

/-- A layer adds rows. -/
theorem grows_withLayer (db : Database Bytes) (m : Digest) (b : Descriptor) :
    Grows db (withLayer db m b) :=
  (grows_addBlob db b).trans ((grows_addLayer _ _ _).trans (grows_addLink _ _))

/-- The layer has its row. -/
theorem hasLayer_withLayer (db : Database Bytes) (m : Digest) (b : Descriptor) :
    (withLayer db m b).hasLayer m b.digest = true := by
  apply (grows_addLink _ _).hasLayer
  rw [← loaded_digest (db.addBlob b) b]
  exact hasLayer_addLayer _ _ _

variable {s s' : State Bytes}

/-- A layer that can be stored gets its rows and is transferred. -/
theorem importLayer_of_storable (hs : Sound fs s.db) (hb : Storable b) (m : Digest) :
    importLayer imp m b s = transferBlob imp b.digest { s with db := withLayer s.db m b } := by
  have hload := storable_loaded (hs.addBlob hb) hb
  rw [importLayer, andThen_of_ok (createOrFindBlob_of_storable hb s)]
  rw [andThen_of_ok (associateLayerBlob_of_storable hload m _)]
  rw [andThen_of_ok (linkBlob_of_stored hb.1 _)]
  rfl

/-- A layer that cannot be stored is an error. -/
theorem importLayer_fails (hb : ¬ Storable b) (m : Digest) : Fails I (importLayer imp m b) :=
  (createOrFindBlob_fails hb).andThen

/-- A manifest is written if it and its configuration can be stored. -/
theorem createManifest_of_storable (hd : newDigest row.digest = none)
    (ht : mapMediaType row.mediaType = none)
    (hcd : (row.configuration.bind fun c => newDigest c.digest) = none)
    (hct : (row.configuration.bind fun c => mapMediaType c.mediaType) = none) (s : State Bytes) :
    createManifest row s = ({ s with db := s.db.addManifest row }, none) := by
  rw [createManifest, check_andThen_of_none hd, check_andThen_of_none ht,
    check_andThen_of_none hcd, check_andThen_of_none hct]
  rfl

/-- A manifest is an error or is written. -/
theorem createManifest_cases (I : State Bytes → Prop) (row : ManifestRow Bytes) :
    Fails I (createManifest row) ∨
      (newDigest row.digest = none ∧ mapMediaType row.mediaType = none ∧
        ∀ s, createManifest row s = ({ s with db := s.db.addManifest row }, none)) := by
  cases hd : newDigest row.digest with
  | some e => exact .inl (Fails.check hd).andThen
  | none =>
    cases ht : mapMediaType row.mediaType with
    | some e => exact .inl (.after_check hd (Fails.check ht).andThen)
    | none =>
      cases hcd : row.configuration.bind fun c => newDigest c.digest with
      | some e => exact .inl (.after_check hd (.after_check ht (Fails.check hcd).andThen))
      | none =>
        cases hct : row.configuration.bind fun c => mapMediaType c.mediaType with
        | some e =>
          refine .inl (.after_check hd (.after_check ht (.after_check hcd ?_)))
          exact (Fails.check hct).andThen
        | none => exact .inr ⟨rfl, rfl, createManifest_of_storable hd ht hcd hct⟩

def withManifest (db : Database Bytes) (row : ManifestRow Bytes) : Database Bytes :=
  if db.hasManifest row.digest then db else db.addManifest row

/-- A manifest adds a row at most. -/
theorem grows_withManifest (db : Database Bytes) (row : ManifestRow Bytes) :
    Grows db (withManifest db row) := by
  unfold withManifest
  split
  · exact Grows.refl db
  · exact grows_addManifest db row

/-- The manifest is there afterwards. -/
theorem hasManifest_withManifest (db : Database Bytes) (row : ManifestRow Bytes) :
    (withManifest db row).hasManifest row.digest = true := by
  unfold withManifest
  split
  · assumption
  · exact hasManifest_addManifest db row

/-- No other manifest has come. -/
theorem hasManifest_of_withManifest (h : (withManifest db row).hasManifest d = true) :
    d = row.digest ∨ db.hasManifest d = true := by
  unfold withManifest at h
  split at h
  · exact .inr h
  · obtain ⟨r, hr, hrd⟩ := any_eq_true.1 h
    rw [decide_eq_true_eq] at hrd
    rcases mem_cons.1 hr with rfl | hr
    · exact .inl hrd.symm
    · exact .inr (any_eq_true.2 ⟨r, hr, decide_eq_true hrd⟩)

/-- A manifest that can be stored is found or written. -/
theorem findOrCreate_of_storable (hd : newDigest row.digest = none)
    (ht : mapMediaType row.mediaType = none)
    (hc : ∀ c ∈ row.configuration, newDigest c.digest = none ∧ mapMediaType c.mediaType = none)
    (s : State Bytes) :
    findOrCreateDBManifest row s = ({ s with db := withManifest s.db row }, none) := by
  rw [findOrCreateDBManifest, check_andThen_of_none hd]
  unfold withManifest
  split
  · rfl
  · apply createManifest_of_storable hd ht <;> cases hconf : row.configuration with
    | none => rfl
    | some c => first | exact (hc c hconf).1 | exact (hc c hconf).2

/-- A manifest that cannot be stored, and is not there, is an error. -/
theorem findOrCreate_fails (row : ManifestRow Bytes)
    (h : ¬ (newDigest row.digest = none ∧ mapMediaType row.mediaType = none))
    (hI : ∀ s, I s → s.db.hasManifest row.digest = false) :
    Fails I (findOrCreateDBManifest row) := by
  cases hd : newDigest row.digest with
  | some e => exact (Fails.check hd).andThen
  | none =>
    refine .after_check hd ?_
    rcases createManifest_cases I row with ⟨e, he⟩ | ⟨hd, ht, -⟩
    · refine ⟨e, fun s hs => ?_⟩
      beta_reduce
      rw [hI s hs]
      exact he s hs
    · exact absurd ⟨hd, ht⟩ h

/-- The row of the image `m`, as it is written to a database. -/
def imageRowIn (db : Database Bytes) (d : Digest) (v : Versioned) (m : Image Bytes)
    (payload : Bytes) : ManifestRow Bytes :=
  imageRow d v m (loaded (db.addLink m.config.digest) m.config) payload

def withImage (s : State Bytes) (d : Digest) (v : Versioned) (m : Image Bytes)
    (payload : Bytes) : State Bytes :=
  { s with db := withManifest (s.db.addLink m.config.digest) (imageRowIn s.db d v m payload) }

/-- INTERNAL: an image whose configuration cannot be read or stored is an error, the same in every
state. -/
theorem importV2Manifest_fails (h : ¬ ((fs.blob m.config.digest).isSome ∧ Storable m.config)) :
    Fails I (importV2Manifest imp fs v m d) := by
  unfold importV2Manifest
  split
  · exact .fail
  next payload hpayload =>
    exact (createOrFindBlob_fails fun hs => h ⟨by rw [hpayload]; rfl, hs⟩).andThen

variable {payload : Bytes}

section

variable (hpayload : fs.blob m.config.digest = some payload)
include hpayload

/-- Once its configuration is transferred the image is written. -/
theorem importV2Manifest_of_transferred (hconf : Storable m.config)
    (ht : transferBlob imp m.config.digest { s with db := s.db.addBlob m.config } = (s', none)) :
    importV2Manifest imp fs v m d s =
      ((findOrCreateDBManifest (imageRowIn s'.db d v m payload)).andThen
        (importLayers imp d m.layers)) { s' with db := s'.db.addLink m.config.digest } := by
  simp only [importV2Manifest, hpayload]
  rw [andThen_of_ok (createOrFindBlob_of_storable hconf s), andThen_of_ok ht,
    andThen_of_ok (linkBlob_of_stored hconf.1 s')]
  rfl

/-- A failed transfer of the configuration is the end. -/
theorem importV2Manifest_of_not_transferred (hconf : Storable m.config) {e}
    (ht : transferBlob imp m.config.digest { s with db := s.db.addBlob m.config } = (s', some e)) :
    importV2Manifest imp fs v m d s = (s', some e) := by
  simp only [importV2Manifest, hpayload]
  rw [andThen_of_ok (createOrFindBlob_of_storable hconf s), andThen_of_error ht]

/-- An image that can be written is, and its layers follow. -/
theorem importV2Manifest_of_importable (hi : Importable fs d v m) (hs' : Sound fs s'.db)
    (ht : transferBlob imp m.config.digest { s with db := s.db.addBlob m.config } = (s', none)) :
    importV2Manifest imp fs v m d s = importLayers imp d m.layers (withImage s' d v m payload) := by
  have hload := storable_loaded (hs'.addLink m.config.digest) hi.config
  have hfind : findOrCreateDBManifest (imageRowIn s'.db d v m payload)
      { s' with db := s'.db.addLink m.config.digest } = (withImage s' d v m payload, none) :=
    findOrCreate_of_storable hi.digest hi.mediaType (fun c hc => by cases hc; exact hload) _
  rw [importV2Manifest_of_transferred hpayload hi.config ht, andThen_of_ok hfind]

end

/-! ## What becomes of an image -/

/-- The row of an image says that it can be written. -/
theorem Sound.importable (h : Sound fs db) (himage : imageAt fs d = some (v, m))
    (hd : db.hasManifest d = true) : Importable fs d v m := by
  rcases h.writable hd with ⟨v', m', hi⟩ | ⟨l, hl⟩
  · cases hi.image.symm.trans himage
    exact hi
  · exact (not_listAt himage hl.list).elim

/-- Soundness is kept by a manifest. -/
theorem Sound.withManifest (h : Sound fs db) (hrow : Writable fs row.digest) :
    Sound fs (withManifest db row) := by
  unfold Imports.withManifest
  split
  · exact h
  · exact h.addManifest hrow

/-- Soundness is kept by an image. -/
theorem Sound.withImage (h : Sound fs s.db) (hi : Importable fs d v m) (payload : Bytes) :
    Sound fs (withImage s d v m payload).db :=
  (h.addLink _).withManifest (.inl ⟨v, m, hi⟩)

/-- The image has its row. -/
theorem hasManifest_withImage (s : State Bytes) (d : Digest) (v : Versioned) (m : Image Bytes)
    (payload : Bytes) : (withImage s d v m payload).db.hasManifest d = true :=
  hasManifest_withManifest _ (imageRowIn s.db d v m payload)

/-- INTERNAL: an image that cannot be written is an error, once its configuration is
transferred. -/
theorem importV2Manifest_of_not_importable (himage : imageAt fs d = some (v, m))
    (hnot : ¬ Importable fs d v m) (hpayload : fs.blob m.config.digest = some payload)
    (hconf : Storable m.config) (hs' : Sound fs s'.db)
    (ht : transferBlob imp m.config.digest { s with db := s.db.addBlob m.config } = (s', none)) :
    ∃ e, importV2Manifest imp fs v m d s =
      ({ s' with db := s'.db.addLink m.config.digest }, some e) := by
  obtain ⟨e, he⟩ : Fails (fun s => Sound fs s.db)
      (findOrCreateDBManifest (imageRowIn s'.db d v m payload)) := by
    refine findOrCreate_fails _ (fun h => hnot ?_) fun s hs => Bool.eq_false_iff.2 fun hhas => ?_
    · exact ⟨himage, by rw [hpayload]; rfl, hconf, h.1, h.2⟩
    · exact hnot (hs.importable himage hhas)
  refine ⟨e, ?_⟩
  rw [importV2Manifest_of_transferred hpayload hconf ht, andThen_of_error (he _ (hs'.addLink _))]

/-- **What becomes of an image**: its configuration cannot be read, stored or transferred, the image
cannot be written, or it is written and its layers follow. -/
inductive Ends (imp : Importer) (fs : Filesystem Bytes) (d : Digest) (v : Versioned)
    (m : Image Bytes) (s : State Bytes) : State Bytes × Option ImportError → Prop where
  | unread (e : ImportError) (hnot : ¬ Importable fs d v m) : Ends imp fs d v m s (s, some e)
  | unsent (s' : State Bytes) (e : ImportError)
      (ht : transferBlob imp m.config.digest { s with db := s.db.addBlob m.config } =
        (s', some e)) : Ends imp fs d v m s (s', some e)
  | unwritten (s' : State Bytes) (e : ImportError) (hnot : ¬ Importable fs d v m)
      (ht : transferBlob imp m.config.digest { s with db := s.db.addBlob m.config } = (s', none))
      (hs' : Sound fs s'.db) :
      Ends imp fs d v m s ({ s' with db := s'.db.addLink m.config.digest }, some e)
  | written (s' : State Bytes) (payload : Bytes) (hi : Importable fs d v m)
      (ht : transferBlob imp m.config.digest { s with db := s.db.addBlob m.config } = (s', none))
      (hs' : Sound fs s'.db) :
      Ends imp fs d v m s (importLayers imp d m.layers (withImage s' d v m payload))

/-- There is no other end. -/
theorem importV2Manifest_ends (imp : Importer) (himage : imageAt fs d = some (v, m))
    (hs : Sound fs s.db) : Ends imp fs d v m s (importV2Manifest imp fs v m d s) := by
  by_cases hconf : (fs.blob m.config.digest).isSome ∧ Storable m.config
  · obtain ⟨payload, hpayload⟩ := Option.isSome_iff_exists.1 hconf.1
    cases ht : transferBlob imp m.config.digest { s with db := s.db.addBlob m.config } with
    | mk s' err =>
      cases err with
      | some e =>
        rw [importV2Manifest_of_not_transferred hpayload hconf.2 ht]
        exact .unsent s' e ht
      | none =>
        have hdb := transferBlob_db imp m.config.digest { s with db := s.db.addBlob m.config }
        rw [ht] at hdb
        have hs' : Sound fs s'.db := hdb ▸ hs.addBlob hconf.2
        by_cases hi : Importable fs d v m
        · rw [importV2Manifest_of_importable hpayload hi hs' ht]
          exact .written s' payload hi ht hs'
        · obtain ⟨e, he⟩ := importV2Manifest_of_not_importable himage hi hpayload hconf.2 hs' ht
          rw [he]
          exact .unwritten s' e hi ht hs'
  · obtain ⟨e, he⟩ : Fails (fun _ => True) (importV2Manifest imp fs v m d) :=
      importV2Manifest_fails hconf
    rw [he s trivial]
    exact .unread e fun hi => hconf ⟨hi.payload, hi.config⟩

def Sends (imp : Importer) (Bytes : Type) (d : Digest) : Prop :=
  ∀ s : State Bytes, (transferBlob imp d s).2 = none

/-- An image that can be written comes out well if its configuration is transferred. -/
theorem importV2Manifest_returns (hi : Importable fs d v m)
    (hsends : Sends imp Bytes m.config.digest) (hs : Sound fs s.db) :
    (importV2Manifest imp fs v m d s).2 = none := by
  have hends := importV2Manifest_ends imp hi.image hs
  generalize importV2Manifest imp fs v m d s = r at hends ⊢
  cases hends with
  | unread e hnot => exact absurd hi hnot
  | unsent s' e ht =>
    have hsent := hsends { s with db := s.db.addBlob m.config }
    rw [ht] at hsent
    cases hsent
  | unwritten s' e hnot ht hs' => exact absurd hi hnot
  | written s' payload hi ht hs' => exact forEach_logged (importLayer imp d) m.layers _

/-! ## Transfers that may fail -/

/-- A transfer service is used. Only the transfers of `may` can fail, and those of `must` always
do. -/
structure Faults (may must : Digest → Prop) (imp : Importer) : Prop where
  wet : imp.dryRun = false
  service : ∃ faults, imp.blobTransferService = some faults ∧
    (∀ n d, faults n d = true → may d) ∧ ∀ n d, must d → faults n d = true

variable {may must : Digest → Prop}

/-- A transfer fails or succeeds. -/
theorem transferBlob_cases (hf : Faults may must imp) (d : Digest) (s : State Bytes) :
    (∃ e n, transferBlob imp d s = ({ s with calls := n }, some e) ∧ may d) ∨
      ∃ n, transferBlob imp d s = ({ s with dest := d :: s.dest, calls := n }, none) ∧
        ¬ must d := by
  obtain ⟨faults, hservice, honly, halways⟩ := hf.service
  unfold transferBlob
  rw [hf.wet, hservice]
  cases hfault : faults s.calls d with
  | true => exact .inl ⟨.transfer d, s.calls + 1, by simp [hfault], honly _ _ hfault⟩
  | false =>
    refine .inr ⟨s.calls + 1, by simp [hfault], fun hmust => ?_⟩
    rw [halways _ _ hmust] at hfault
    cases hfault

/-- What cannot fail is sent. -/
theorem Faults.sends (hf : Faults may must imp) (hmay : ¬ may d) : Sends imp Bytes d := by
  intro s
  rcases transferBlob_cases hf d s with ⟨e, n, -, hfail⟩ | ⟨n, heq, -⟩
  · exact absurd hfail hmay
  · rw [heq]

/-! ## Manifests that are solid -/

/-- Of an image, the configuration is at the destination, and the layers that can be stored have
their rows, and are there too unless their transfer may fail. Of a list, the members that cannot
fail are associated. -/
structure Solid (may : Digest → Prop) (fs : Filesystem Bytes) (s : State Bytes) (d : Digest) :
    Prop where
  config : ∀ v m, imageAt fs d = some (v, m) → m.config.digest ∈ s.dest
  layers : ∀ v m, imageAt fs d = some (v, m) → ∀ b ∈ m.layers, Storable b →
    s.db.hasLayer d b.digest = true ∧ (¬ may b.digest → b.digest ∈ s.dest)
  members : ∀ l, listAt fs d = some l → ∀ c ∈ l.manifests, ∀ v m, Importable fs c v m →
    ¬ may m.config.digest → (d, c) ∈ s.db.references

/-- From `s` to `s'` rows and blobs are added: no blob whose transfer always fails, and only solid
manifests. -/
structure Built (may must : Digest → Prop) (fs : Filesystem Bytes) (s s' : State Bytes) :
    Prop where
  grows : Grows s.db s'.db
  kept : s.dest ⊆ s'.dest
  sent : ∀ x ∈ s'.dest, x ∈ s.dest ∨ ¬ must x
  solid : ∀ d, s'.db.hasManifest d = true → s.db.hasManifest d = true ∨ Solid may fs s' d

/-- What is solid stays so. -/
theorem Solid.mono (h : Solid may fs s d) (hgrows : Grows s.db s'.db) (hkept : s.dest ⊆ s'.dest) :
    Solid may fs s' d where
  config v m himage := hkept (h.config v m himage)
  layers v m himage b hb hstore := by
    obtain ⟨hrow, hdest⟩ := h.layers v m himage b hb hstore
    exact ⟨hgrows.hasLayer hrow, fun hmay => hkept (hdest hmay)⟩
  members l hlist c hc v m hi hmay := hgrows.references (h.members l hlist c hc v m hi hmay)

theorem Built.refl (s : State Bytes) : Built may must fs s s :=
  ⟨Grows.refl _, List.Subset.refl _, fun _ h => .inl h, fun _ h => .inl h⟩

/-- One after the other. -/
theorem Built.trans {s₁ s₂ s₃ : State Bytes} (h : Built may must fs s₁ s₂)
    (h' : Built may must fs s₂ s₃) : Built may must fs s₁ s₃ where
  grows := h.grows.trans h'.grows
  kept := List.Subset.trans h.kept h'.kept
  sent x hx := by
    rcases h'.sent x hx with hx | hx
    · exact h.sent x hx
    · exact .inr hx
  solid d hd := by
    rcases h'.solid d hd with hd | hd
    · exact (h.solid d hd).imp_right fun hsolid => hsolid.mono h'.grows h'.kept
    · exact .inr hd

instance : IsPreorder (State Bytes) (Built may must fs) where
  refl := Built.refl
  trans _ _ _ := Built.trans

theorem built_of_rows (hgrows : Grows s.db s'.db) (hkept : s.dest ⊆ s'.dest)
    (hsent : ∀ x ∈ s'.dest, x ∈ s.dest ∨ ¬ must x) (hsame : s'.db.manifests = s.db.manifests) :
    Built may must fs s s' where
  grows := hgrows
  kept := hkept
  sent := hsent
  solid d hd := by
    left
    unfold Database.hasManifest at hd ⊢
    rwa [← hsame]

theorem built_of_db {db} (hgrows : Grows s.db db)
    (hsame : db.manifests = s.db.manifests) : Built may must fs s { s with db := db } :=
  built_of_rows hgrows (List.Subset.refl _) (fun _ h => .inl h) hsame

/-- A manifest is added and then made solid. -/
theorem built_of_manifest {s t s'} (hgrows : Grows s.db t.db) (hdest : t.dest = s.dest)
    (hrows : ∀ d', t.db.hasManifest d' = true → d' = d ∨ s.db.hasManifest d' = true)
    (hbuilt : Built may must fs t s') (hsolid : Solid may fs s' d) : Built may must fs s s' where
  grows := hgrows.trans hbuilt.grows
  kept := hdest ▸ hbuilt.kept
  sent := hdest ▸ hbuilt.sent
  solid d' hd' := by
    rcases hbuilt.solid d' hd' with hd' | hd'
    · rcases hrows d' hd' with rfl | hd'
      · exact .inr hsolid
      · exact .inl hd'
    · exact .inr hd'

/-- A transfer adds a blob at most. -/
theorem transferBlob_built (hf : Faults may must imp) (d : Digest) (s : State Bytes) :
    Built may must fs s (transferBlob imp d s).1 := by
  rcases transferBlob_cases hf d s with ⟨e, n, heq, -⟩ | ⟨n, heq, hmust⟩
  · rw [heq]
    exact built_of_rows (Grows.refl _) (List.Subset.refl _) (fun _ h => .inl h) rfl
  · rw [heq]
    refine built_of_rows (Grows.refl _) (subset_cons_self _ _) (fun x hx => ?_) rfl
    rcases mem_cons.1 hx with rfl | hx
    · exact .inr hmust
    · exact .inl hx

/-! ## Every stage builds -/

abbrev Builds (may must : Digest → Prop) (fs : Filesystem Bytes) :
    State Bytes → State Bytes → Prop :=
  Onward id (Built may must fs) (fun s => Sound fs s.db)

/-- What has to be shown of a stage. -/
theorem builds_of {A : ImportStage Bytes}
    (h : ∀ s, Sound fs s.db → Sound fs (A s).1.db ∧ Built may must fs s (A s).1) :
    Keeps (Builds may must fs) A := h

variable (hf : Faults may must imp)
include hf

/-- A layer is built. -/
theorem importLayer_builds (himage : imageAt fs d = some (v, m)) (hb : b ∈ m.layers) :
    Keeps (Builds may must fs) (importLayer imp d b) := by
  by_cases hstore : Storable b
  · refine builds_of fun s hs => ?_
    have hsound : Sound fs (withLayer s.db d b) :=
      ((hs.addBlob hstore).addLayer himage hb (loaded_digest _ _) hstore).addLink _
    rw [importLayer_of_storable hs hstore]
    refine ⟨(transferBlob_db _ _ _).symm ▸ hsound, ?_⟩
    exact (built_of_db (grows_withLayer _ _ _) rfl).trans (transferBlob_built hf _ _)
  · exact (importLayer_fails hstore d).onward

/-- INTERNAL: after its import a layer that can be stored has its row, and its blob unless the
transfer may fail. -/
theorem importLayer_solid (hs : Sound fs s.db) {b} (hstore : Storable b) (d : Digest) :
    (importLayer imp d b s).1.db.hasLayer d b.digest = true ∧
      (¬ may b.digest → b.digest ∈ (importLayer imp d b s).1.dest) := by
  rw [importLayer_of_storable hs hstore]
  constructor
  · rw [transferBlob_db]
    exact hasLayer_withLayer s.db d b
  · intro hmay
    rcases transferBlob_cases hf b.digest { s with db := withLayer s.db d b } with
      ⟨e, n, -, hfail⟩ | ⟨n, heq, -⟩
    · exact absurd hfail hmay
    · rw [heq]
      exact mem_cons_self

/-- INTERNAL: after their import the layers are solid. -/
theorem importLayers_solid (himage : imageAt fs d = some (v, m)) (hs : Sound fs s.db) :
    Builds may must fs s (importLayers imp d m.layers s).1 ∧
      ∀ b ∈ m.layers, Storable b →
        (importLayers imp d m.layers s).1.db.hasLayer d b.digest = true ∧
          (¬ may b.digest → b.digest ∈ (importLayers imp d m.layers s).1.dest) := by
  have hbuilds : ∀ b ∈ m.layers,
      Keeps (Builds may must fs) (importLayer imp d b).logged :=
    fun b hb => (importLayer_builds hf himage hb).logged
  refine ⟨Keeps.forEach hbuilds s, fun b hb hstore => ?_⟩
  -- once a layer is in, the other layers leave it in
  have hall := forEach_all (I := fun s : State Bytes => Sound fs s.db)
    (P := fun (b : Descriptor) (s : State Bytes) => Storable b →
      s.db.hasLayer d b.digest = true ∧ (¬ may b.digest → b.digest ∈ s.dest))
    (fun b _ s _ => rfl) (fun b hb s hs => (hbuilds b hb s hs).1)
    (fun b _ s hs hstore => importLayer_solid hf hs hstore d)
    (fun b c hc s hs hP hstore => by
      obtain ⟨-, hbuilt⟩ := hbuilds c hc s hs
      obtain ⟨hrow, hdest⟩ := hP hstore
      exact ⟨hbuilt.grows.hasLayer hrow, fun hmay => hbuilt.kept (hdest hmay)⟩) hs
  exact hall.2.2 b (.inl hb) hstore

/-- A configuration is sent, or the image fails. -/
theorem configuration_built (config : Descriptor) {err}
    (ht : transferBlob imp config.digest { s with db := s.db.addBlob config } = (s', err)) :
    Built may must fs s s' ∧ (err = none → config.digest ∈ s'.dest) := by
  have hsent : Built may must fs { s with db := s.db.addBlob config }
      (transferBlob imp config.digest { s with db := s.db.addBlob config }).1 :=
    transferBlob_built hf _ _
  rw [ht] at hsent
  refine ⟨(built_of_db (grows_addBlob _ _) rfl).trans hsent, ?_⟩
  rintro rfl
  rcases transferBlob_cases hf config.digest { s with db := s.db.addBlob config } with
    ⟨e, n, heq, -⟩ | ⟨n, heq, -⟩
  · rw [ht] at heq
    cases heq
  · rw [ht] at heq
    cases heq
    exact mem_cons_self

/-- INTERNAL: an image is built solid. -/
theorem importV2Manifest_builds (himage : imageAt fs d = some (v, m)) :
    Keeps (Builds may must fs) (importV2Manifest imp fs v m d) := by
  by_cases hconf : (fs.blob m.config.digest).isSome ∧ Storable m.config
  swap
  · exact (importV2Manifest_fails hconf).onward
  refine builds_of fun s hs => ?_
  have hends := importV2Manifest_ends imp himage hs
  generalize importV2Manifest imp fs v m d s = r at hends ⊢
  cases hends with
  | unread e hnot => exact ⟨hs, Built.refl s⟩
  | unsent s' e ht =>
    have hdb := transferBlob_db imp m.config.digest { s with db := s.db.addBlob m.config }
    rw [ht] at hdb
    exact ⟨hdb ▸ hs.addBlob hconf.2, (configuration_built hf m.config ht).1⟩
  | unwritten s' e hnot ht hs' =>
    obtain ⟨hbuilt, -⟩ : Built may must fs s s' ∧ _ := configuration_built hf m.config ht
    exact ⟨hs'.addLink _, hbuilt.trans (built_of_db (grows_addLink _ _) rfl)⟩
  | written s' payload hi ht hs' =>
    obtain ⟨hbuilt, hconfig⟩ : Built may must fs s s' ∧ _ := configuration_built hf m.config ht
    have hsound := hs'.withImage hi payload
    obtain ⟨hlayers, hsolid⟩ : Builds may must fs _ _ ∧ _ := importLayers_solid hf himage hsound
    obtain ⟨hsound, hlayers⟩ := hlayers hsound
    refine ⟨hsound, hbuilt.trans ?_⟩
    apply built_of_manifest (t := withImage s' d v m payload) (d := d)
      ((grows_addLink _ _).trans (grows_withManifest _ _)) rfl
      (fun d' hd' => hasManifest_of_withManifest hd') hlayers
    refine ⟨fun v' m' hat => ?_, fun v' m' hat => ?_, fun l hlist => ?_⟩
    · cases hat.symm.trans himage
      exact hlayers.kept (hconfig rfl)
    · cases hat.symm.trans himage
      exact hsolid
    · exact (not_listAt himage hlist).elim

/-- An image that comes out well has its row. -/
theorem importV2Manifest_ok (himage : imageAt fs d = some (v, m)) (hs : Sound fs s.db)
    (hok : (importV2Manifest imp fs v m d s).2 = none) :
    Importable fs d v m ∧ (importV2Manifest imp fs v m d s).1.db.hasManifest d = true := by
  have hends := importV2Manifest_ends imp himage hs
  generalize importV2Manifest imp fs v m d s = r at hok hends ⊢
  cases hends with
  | unread | unsent | unwritten => cases hok
  | written s' payload hi ht hs' =>
    have hsound := hs'.withImage hi payload
    obtain ⟨-, hbuilt⟩ := (importLayers_solid hf himage hsound).1 hsound
    exact ⟨hi, hbuilt.grows.hasManifest (hasManifest_withImage _ _ _ _ _)⟩

end ContainerRegistry.Analysis.Imports
