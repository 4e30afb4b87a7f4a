import ContainerRegistry.Model.ManifestHandler

/-!
# What the validators find

A reference is at fault if a blob or a manifest it needs is missing, or a URL of a foreign layer is
against the policy. A missing manifest is not refused where there is a blob of that digest. URLs are
looked at for the layer types of the format only.
-/

namespace ContainerRegistry.Analysis.Manifests

open Model.Manifests
open Model (Digest)

variable {Bytes : Type}

/-! ## Faults -/

inductive Subject where
  | schema2 (m : Image)
  | oci (m : Image)
  | list (l : ManifestList)

def Subject.references : Subject → List Descriptor
  | .schema2 m => m.references
  | .oci m => m.references
  | .list l => l.references

def Subject.schemaVersion : Subject → Int
  | .schema2 m => m.versioned.schemaVersion
  | .oci m => m.versioned.schemaVersion
  | .list l => l.versioned.schemaVersion

/-- `Validate` for the type of the manifest, with dependency verification. -/
def Subject.validate (cfg : Config Bytes) (deps : Dependencies) : Subject → Option PutError
  | .schema2 m => schema2Validate cfg false deps m
  | .oci m => ociValidate cfg false deps m
  | .list l => listValidate false deps l

def Subject.check (cfg : Config Bytes) (deps : Dependencies) : Subject → Descriptor →
    Option CheckError
  | .schema2 _ => schema2Check cfg.validURL deps
  | .oci _ => ociCheck cfg.validURL deps
  | .list _ => listCheck deps

/-- The validator takes the reference for a manifest. -/
def Subject.isManifest : Subject → MediaType → Prop
  | .schema2 _, t => t = .manifestV2 ∨ t = .manifestV1
  | .oci _, t => t = .imageManifest
  | .list _, _ => True

def Subject.isImage : Subject → Prop
  | .list _ => False
  | _ => True

/-- The validator looks at the URLs of the reference. -/
def Subject.looksAtURLs : Subject → MediaType → Prop
  | .schema2 _, t => t = .dockerForeignLayer
  | .oci _, t => t = .ociLayer ∨ t = .ociLayerGzip ∨ t = .ociNondistributableLayer ∨
      t = .ociNondistributableLayerGzip
  | .list _, _ => False

/-- The foreign layers of schema 2 and the layers of OCI that are not distributable. -/
def foreignLayers : List MediaType :=
  [.dockerForeignLayer, .ociNondistributableLayer, .ociNondistributableLayerGzip]

def Permitted (u : ManifestURLs) (s : String) : Prop :=
  (∀ re, u.allow = some re → re s = true) ∧ ∀ re, u.deny = some re → re s = false

/-- **A reference is at fault.** -/
inductive Fault (u : ManifestURLs) (deps : Dependencies) (m : Subject) (d : Descriptor) : Prop
  | blob : m.isImage → d.urls = [] → deps.blobStat d.digest ≠ none → Fault u deps m d
  | manifest : m.isManifest d.mediaType → deps.manifestExists d.digest ≠ .ok true → Fault u deps m d
  | url (s : String) : m.isImage → d.mediaType ∈ foreignLayers → s ∈ d.urls → ¬ Permitted u s →
      Fault u deps m d

def Names (e : Option PutError) (digest : Option Digest) : Prop :=
  ∃ errs, e = some (.verification errs) ∧ .blobUnknown digest ∈ errs

theorem mem_report_iff (d : Descriptor) (e : Option CheckError) (digest : Option Digest) :
    .blobUnknown digest ∈ report d e ↔ e ≠ none ∧ d.digest = digest := by
  cases e with
  | none => simp [report]
  | some e => cases e <;> simp [report, eq_comm]

theorem names_validate_iff (version : Int) (check : Descriptor → Option CheckError)
    (references : List Descriptor) (digest : Option Digest) (hversion : version = 2) :
    Names (validate version false check references) digest ↔
      ∃ d ∈ references, d.digest = digest ∧ check d ≠ none := by
  have hmem : .blobUnknown digest ∈ (references.flatMap fun d => report d (check d)) ↔
      ∃ d ∈ references, d.digest = digest ∧ check d ≠ none := by
    simp only [List.mem_flatMap, mem_report_iff, and_comm]
  rw [← hmem, validate, if_neg (not_not.2 hversion), if_neg Bool.false_ne_true]
  cases references.flatMap fun d => report d (check d) with
  | nil | cons err errs => simp [Names]

/-- **The digests that are named** are those of the references that are refused. -/
theorem Subject.names_iff (cfg : Config Bytes) (deps : Dependencies) (m : Subject)
    (digest : Option Digest) (hversion : m.schemaVersion = 2) :
    Names (m.validate cfg deps) digest ↔
      ∃ d ∈ m.references, d.digest = digest ∧ m.check cfg deps d ≠ none := by
  cases m with
  | schema2 m | oci m | list l => exact names_validate_iff _ _ _ digest hversion

/-! ## What is refused -/

/-- INTERNAL: the blob store counts if there are no URLs, and the manifest store only if there are
some. -/
theorem statUnlessURLs_ne_none_iff (deps : Dependencies) (d : Descriptor) (e : Option CheckError) :
    statUnlessURLs deps d e ≠ none ↔
      (d.urls = [] ∧ deps.blobStat d.digest ≠ none) ∨ (d.urls ≠ [] ∧ e ≠ none) := by
  unfold statUnlessURLs
  split <;> simp_all

theorem manifestCheck_ne_none_iff (deps : Dependencies) (d : Descriptor) :
    manifestCheck deps d ≠ none ↔ deps.manifestExists d.digest ≠ .ok true := by
  unfold manifestCheck
  split <;> simp_all

/-- **A reference that is refused.** -/
inductive Refused (valid : String → Bool) (deps : Dependencies) (m : Subject) (d : Descriptor) :
    Prop
  | blob : m.isImage → d.urls = [] → deps.blobStat d.digest ≠ none → Refused valid deps m d
  | manifest : m.isManifest d.mediaType → (m.isImage → d.urls ≠ []) →
      deps.manifestExists d.digest ≠ .ok true → Refused valid deps m d
  | url (s : String) : m.looksAtURLs d.mediaType → s ∈ d.urls → valid s = false →
      Refused valid deps m d
  | missingURL (im : Image) : m = .schema2 im → d.mediaType = .dockerForeignLayer → d.urls = [] →
      Refused valid deps m d

theorem listCheck_ne_none_iff (deps : Dependencies) (d : Descriptor) :
    listCheck deps d ≠ none ↔ deps.manifestExists d.digest ≠ .ok true := by
  unfold listCheck
  split <;> simp_all

section

variable (valid : String → Bool) (deps : Dependencies) (d : Descriptor)

theorem any_invalid_iff (urls : List String) :
    (urls.any fun u => !valid u) = true ↔ ∃ s ∈ urls, valid s = false := by
  simp

theorem schema2Check_foreign_iff (h : d.mediaType = .dockerForeignLayer) :
    schema2Check valid deps d ≠ none ↔ d.urls = [] ∨ ∃ s ∈ d.urls, valid s = false := by
  rw [schema2Check, h, ← any_invalid_iff]
  dsimp only
  split
  next hany => simp [hany]
  next hany => split <;> simp_all

theorem ociCheck_layer_iff (im : Image) (h : (Subject.oci im).looksAtURLs d.mediaType) :
    ociCheck valid deps d ≠ none ↔
      (∃ s ∈ d.urls, valid s = false) ∨ (d.urls = [] ∧ deps.blobStat d.digest ≠ none) := by
  have hcheck : ociCheck valid deps d =
      if d.urls.any fun u => !valid u then some .invalidURL else statUnlessURLs deps d none := by
    rcases h with h | h | h | h <;> rw [ociCheck, h]
  rw [hcheck, ← any_invalid_iff]
  split
  next hany => simp [hany]
  next hany => simp [hany, statUnlessURLs_ne_none_iff]

/-- A manifest is looked up unless it has URLs. -/
theorem refused_manifest_iff (m : Subject) (himage : m.isImage)
    (hmanifest : m.isManifest d.mediaType) (hlooks : ¬ m.looksAtURLs d.mediaType) :
    Refused valid deps m d ↔ statUnlessURLs deps d (manifestCheck deps d) ≠ none := by
  rw [statUnlessURLs_ne_none_iff, manifestCheck_ne_none_iff]
  constructor
  · rintro (⟨-, hnil, hblob⟩ | ⟨-, hurls, hexists⟩ | ⟨s, h, -⟩ | ⟨im, rfl, h, -⟩)
    · exact .inl ⟨hnil, hblob⟩
    · exact .inr ⟨hurls himage, hexists⟩
    · exact absurd h hlooks
    · exact absurd h hlooks
  · rintro (⟨hnil, hblob⟩ | ⟨hurls, hexists⟩)
    · exact .blob himage hnil hblob
    · exact .manifest hmanifest (fun _ => hurls) hexists

/-- So is anything else. -/
theorem refused_other_iff (m : Subject) (himage : m.isImage)
    (hmanifest : ¬ m.isManifest d.mediaType) (hlooks : ¬ m.looksAtURLs d.mediaType) :
    Refused valid deps m d ↔ statUnlessURLs deps d none ≠ none := by
  rw [statUnlessURLs_ne_none_iff]
  constructor
  · rintro (⟨-, hnil, hblob⟩ | ⟨h, -⟩ | ⟨s, h, -⟩ | ⟨im, rfl, h, -⟩)
    · exact .inl ⟨hnil, hblob⟩
    · exact absurd h hmanifest
    · exact absurd h hlooks
    · exact absurd h hlooks
  · rintro (⟨hnil, hblob⟩ | ⟨-, hne⟩)
    · exact .blob himage hnil hblob
    · exact absurd rfl hne

/-- A layer of schema 2 is refused. -/
theorem schema2Check_ne_none_iff (im : Image) :
    schema2Check valid deps d ≠ none ↔ Refused valid deps (.schema2 im) d := by
  by_cases hforeign : d.mediaType = .dockerForeignLayer
  · rw [schema2Check_foreign_iff _ _ _ hforeign]
    constructor
    · rintro (hnil | ⟨s, hs, hvalid⟩)
      · exact .missingURL im rfl hforeign hnil
      · exact .url s hforeign hs hvalid
    · rintro (⟨-, hnil, -⟩ | ⟨hmanifest, -⟩ | ⟨s, -, hs, hvalid⟩ | ⟨_, -, -, hnil⟩)
      · exact .inl hnil
      · rw [hforeign] at hmanifest
        rcases hmanifest with h | h <;> cases h
      · exact .inr ⟨s, hs, hvalid⟩
      · exact .inl hnil
  by_cases hmanifest : (Subject.schema2 im).isManifest d.mediaType
  · rw [refused_manifest_iff valid deps d (.schema2 im) trivial hmanifest hforeign]
    rcases hmanifest with h | h <;> rw [schema2Check, h]
  · rw [refused_other_iff valid deps d (.schema2 im) trivial hmanifest hforeign]
    obtain ⟨hV2, hV1⟩ := not_or.1 hmanifest
    unfold schema2Check
    split <;> simp_all

/-- A layer of OCI is refused. -/
theorem ociCheck_ne_none_iff (im : Image) :
    ociCheck valid deps d ≠ none ↔ Refused valid deps (.oci im) d := by
  by_cases hlayer : (Subject.oci im).looksAtURLs d.mediaType
  · rw [ociCheck_layer_iff _ _ _ im hlayer]
    constructor
    · rintro (⟨s, hs, hvalid⟩ | ⟨hnil, hblob⟩)
      · exact .url s hlayer hs hvalid
      · exact .blob trivial hnil hblob
    · rintro (⟨-, hnil, hblob⟩ | ⟨hmanifest, -⟩ | ⟨s, -, hs, hvalid⟩ | ⟨_, him, -⟩)
      · exact .inr ⟨hnil, hblob⟩
      · rw [show d.mediaType = .imageManifest from hmanifest] at hlayer
        rcases hlayer with h | h | h | h <;> cases h
      · exact .inl ⟨s, hs, hvalid⟩
      · cases him
  by_cases hmanifest : (Subject.oci im).isManifest d.mediaType
  · rw [refused_manifest_iff valid deps d (.oci im) trivial hmanifest hlayer, ociCheck,
      show d.mediaType = .imageManifest from hmanifest]
  · rw [refused_other_iff valid deps d (.oci im) trivial hmanifest hlayer]
    have hne : d.mediaType ≠ .imageManifest := hmanifest
    unfold ociCheck
    split <;> simp_all [Subject.looksAtURLs]

end

/-- A descriptor is an error if it is refused. -/
theorem Subject.check_ne_none_iff (cfg : Config Bytes) (deps : Dependencies) (m : Subject)
    (d : Descriptor) : m.check cfg deps d ≠ none ↔ Refused cfg.validURL deps m d := by
  cases m with
  | schema2 im => exact schema2Check_ne_none_iff cfg.validURL deps d im
  | oci im => exact ociCheck_ne_none_iff cfg.validURL deps d im
  | list l =>
    refine (listCheck_ne_none_iff deps d).trans ⟨fun h => .manifest trivial (fun h => h.elim) h, ?_⟩
    rintro (⟨himage, -⟩ | ⟨-, -, h⟩ | ⟨s, hlooks, -⟩ | ⟨im, him, -⟩)
    · exact himage.elim
    · exact h
    · exact hlooks.elim
    · cases him

/-! ## Faults that are not found -/

/-- **A fault that is not found**: a missing manifest with a blob of its digest, or a foreign layer
of the other format. -/
inductive Missed (u : ManifestURLs) (deps : Dependencies) (m : Subject) (d : Descriptor) : Prop
  | manifest : m.isImage → m.isManifest d.mediaType → d.urls = [] →
      deps.manifestExists d.digest ≠ .ok true → deps.blobStat d.digest = none → Missed u deps m d
  | url (s : String) : m.isImage → d.mediaType ∈ foreignLayers → ¬ m.looksAtURLs d.mediaType →
      s ∈ d.urls → ¬ Permitted u s → Missed u deps m d

variable {u : ManifestURLs}

theorem Missed.fault {deps m d} (h : Missed u deps m d) : Fault u deps m d := by
  cases h with
  | manifest _ hmanifest _ hexists _ => exact .manifest hmanifest hexists
  | url s himage hforeign _ hs hnot => exact .url s himage hforeign hs hnot

theorem permitted_of_validURL {parse : String → Option ParsedURL} {s}
    (h : validURL parse u s = true) : Permitted u s := by
  unfold validURL at h
  split at h
  · cases h
  · simp only [Bool.not_eq_true', Bool.or_eq_false_iff] at h
    refine ⟨fun re hre => ?_, fun re hre => ?_⟩
    · simpa [hre] using h.1.2
    · simpa [hre] using h.2

/-- Every fault is refused or missed. -/
theorem Fault.refused_or_missed (parse : String → Option ParsedURL) {deps m d}
    (h : Fault u deps m d) : Refused (validURL parse u) deps m d ∨ Missed u deps m d := by
  cases h with
  | blob himage hnil hblob => exact .inl (.blob himage hnil hblob)
  | manifest hmanifest hexists =>
    by_cases himage : m.isImage
    · by_cases hnil : d.urls = []
      · by_cases hblob : deps.blobStat d.digest = none
        · exact .inr (.manifest himage hmanifest hnil hexists hblob)
        · exact .inl (.blob himage hnil hblob)
      · exact .inl (.manifest hmanifest (fun _ => hnil) hexists)
    · exact .inl (.manifest hmanifest (fun h => absurd h himage) hexists)
  | url s himage hforeign hs hnot =>
    by_cases hlooks : m.looksAtURLs d.mediaType
    · exact .inl (.url s hlooks hs (Bool.eq_false_iff.2 fun h => hnot (permitted_of_validURL h)))
    · exact .inr (.url s himage hforeign hlooks hs hnot)

/-- **When every fault is named.** With dependency verification, `Validate` names the digests of all
references at fault, if and only if the digest of each one it misses is that of a reference it
refuses. -/
theorem faults_named_iff (cfg : Config Bytes) (parse : String → Option ParsedURL) (u : ManifestURLs)
    (deps : Dependencies) (m : Subject) (hversion : m.schemaVersion = 2) :
    (∀ d ∈ m.references, Fault u deps m d →
      Names (m.validate { cfg with validURL := validURL parse u } deps) d.digest) ↔
    ∀ d ∈ m.references, Missed u deps m d →
      ∃ d' ∈ m.references, d'.digest = d.digest ∧ Refused (validURL parse u) deps m d' := by
  have hnames (digest : Option Digest) :
      Names (m.validate { cfg with validURL := validURL parse u } deps) digest ↔
        ∃ d ∈ m.references, d.digest = digest ∧ Refused (validURL parse u) deps m d := by
    simp only [m.names_iff _ deps digest hversion, Subject.check_ne_none_iff]
  constructor
  · intro h d hd hmissed
    exact (hnames d.digest).1 (h d hd hmissed.fault)
  · intro h d hd hfault
    rcases hfault.refused_or_missed parse with hrefused | hmissed
    · exact (hnames d.digest).2 ⟨d, hd, rfl, hrefused⟩
    · exact (hnames d.digest).2 (h d hd hmissed)

/-! ## A manifest that is not there -/

/-- INTERNAL: an image manifest with a reference to another one. -/
def nestedImage : Image :=
  ⟨⟨2, .imageManifest⟩, ⟨.ociConfig, some ⟨.sha256, 0⟩, []⟩,
    [⟨.imageManifest, some ⟨.sha256, 1⟩, []⟩]⟩

def onlyBlobs : Dependencies where
  manifestExists := fun _ => .ok false
  blobStat := fun _ => none

def noPolicy : ManifestURLs := ⟨none, none⟩

def anyURL : String → Option ParsedURL := fun _ => some ⟨"https", ""⟩

/-- INTERNAL: a configuration; its check of URLs is replaced. -/
def anyConfig : Config ℕ where
  useDatabase := true
  writeFSMetadata := false
  writes := nofun
  isCache := false
  validURL := fun _ => true
  applyResourcePolicy := fun _ => none

/-- A reference to a manifest that does not exist passes, as there is a blob of its digest. -/
theorem missing_manifest_passes :
    (Subject.oci nestedImage).validate
        { anyConfig with validURL := validURL anyURL noPolicy } onlyBlobs = none ∧
      Fault noPolicy onlyBlobs (.oci nestedImage) ⟨.imageManifest, some ⟨.sha256, 1⟩, []⟩ :=
  ⟨rfl, .manifest rfl nofun⟩

def oneManifest : ManifestList :=
  ⟨⟨2, .manifestList⟩, some [⟨⟨.manifestV2, some ⟨.sha256, 1⟩, []⟩, "amd64", "linux"⟩]⟩

/-- In a list the manifest that is missing is named. -/
theorem missing_manifest_of_list_named :
    Names ((Subject.list oneManifest).validate
      { anyConfig with validURL := validURL anyURL noPolicy } onlyBlobs) (some ⟨.sha256, 1⟩) := by
  refine (faults_named_iff anyConfig anyURL noPolicy onlyBlobs (.list oneManifest) rfl).2 ?_
    ⟨.manifestV2, some ⟨.sha256, 1⟩, []⟩ (List.mem_singleton.2 rfl) (.manifest trivial nofun)
  intro d _ hmissed
  cases hmissed with
  | manifest himage | url _ himage => exact himage.elim

end ContainerRegistry.Analysis.Manifests
