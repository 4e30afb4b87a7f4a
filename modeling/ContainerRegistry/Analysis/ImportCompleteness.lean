import ContainerRegistry.Analysis.ImportRuns

/-!
# When an import that returns is complete

An error of a layer is only logged, so an image may lack a layer. `Covered` layers cannot be
missing.
-/

namespace ContainerRegistry.Analysis.Imports

open Library Model.Imports List Stage
open Model (Digest TagName)
open Model.Manifests (MediaType Versioned)

variable {Bytes : Type} {fs : Filesystem Bytes}

variable {may must : Digest → Prop} {imp : Importer} {s s' : State Bytes}

/-! ## One import -/

def transferring (dangling requireEmpty : Bool) (faults : ℕ → Digest → Bool) : Importer :=
  ⟨dangling, requireEmpty, false, some faults⟩

/-- A database that has no rows of the repository yet. It may have blobs of others. -/
structure Fresh (s : State Bytes) : Prop where
  blobs : ∀ b ∈ s.db.blobs, Storable b
  manifests : s.db.manifests = []
  layers : s.db.layers = []
  references : s.db.references = []
  tags : s.db.tags = []

/-- The states that earlier runs of the importer on the same filesystem lead to, in which only
transfers of `may` have failed. -/
inductive Earlier (fs : Filesystem Bytes) (may : Digest → Prop) (base : State Bytes) :
    State Bytes → Prop where
  | base : Earlier fs may base base
  | preImport {s : State Bytes} (imp : Importer) (hf : Faults may (fun _ => False) imp)
      (h : Earlier fs may base s) : Earlier fs may base (preImport imp fs s).1
  | doImport {s : State Bytes} (imp : Importer) (hf : Faults may (fun _ => False) imp)
      (h : Earlier fs may base s) : Earlier fs may base (doImport imp fs s).1

/-- What such runs leave: every manifest is solid, and nothing is lost. -/
structure Firm (may : Digest → Prop) (fs : Filesystem Bytes) (base s : State Bytes) : Prop where
  sound : Sound fs s.db
  solid : ∀ d, s.db.hasManifest d = true → Solid may fs s d
  kept : base.dest ⊆ s.dest
  empty : s.db.isEmpty = true → base.db.isEmpty = true

variable {base : State Bytes}

/-- A fresh database is firm. -/
theorem Fresh.firm (h : Fresh base) : Firm may fs base base where
  sound :=
    { blobs := h.blobs
      manifests := by simp [h.manifests]
      layers := by simp [h.layers]
      references := by simp [h.references]
      tags := by simp [h.tags] }
  solid d hd := by simp [Database.hasManifest, h.manifests] at hd
  kept := List.Subset.refl _
  empty := id

theorem Grows.isEmpty {a b : Database Bytes} (h : Grows a b) (hb : b.isEmpty = true) :
    a.isEmpty = true := by
  simp only [Database.isEmpty, Bool.and_eq_true, Bool.not_eq_true', List.isEmpty_iff] at hb ⊢
  obtain ⟨⟨⟨hrepository, hmanifests⟩, hblobs⟩, htags⟩ := hb
  refine ⟨⟨⟨?_, ?_⟩, ?_⟩, ?_⟩
  · exact Bool.eq_false_iff.2 fun ha => by simp [h.repository ha] at hrepository
  · exact subset_nil.1 (hmanifests ▸ h.manifests)
  · exact subset_nil.1 (hblobs ▸ h.blobs)
  · exact subset_nil.1 (htags ▸ h.tags)

theorem Firm.built (h : Firm may fs base s) (hs : Sound fs s'.db)
    (hbuilt : Built may must fs s s') : Firm may fs base s' where
  sound := hs
  solid d hd := (hbuilt.solid d hd).elim
    (fun hd => (h.solid d hd).mono hbuilt.grows hbuilt.kept) id
  kept := List.Subset.trans h.kept hbuilt.kept
  empty he := h.empty (hbuilt.grows.isEmpty he)

/-- INTERNAL: the transfers of a run that is rolled back stay. -/
theorem Firm.undone (h : Firm may fs base s) (hbuilt : Built may must fs s s') :
    Firm may fs base { s' with db := s.db } where
  sound := h.sound
  solid d hd := (h.solid d hd).mono (Grows.refl _) hbuilt.kept
  kept := List.Subset.trans h.kept hbuilt.kept
  empty := h.empty

/-- A pre-import leaves it so. -/
theorem preImport_firm (hf : Faults may must imp) (h : Firm may fs base s) :
    Firm may fs base (preImport imp fs s).1 := by
  have hbuilds : Keeps (Builds may must fs) ((checkName fs).andThen <|
      createOrFindByPath.andThen (preImportTaggedManifests imp fs)) :=
    Keeps.check.andThen (preImport_keeps createOrFindByPath_builds fun _ _ => importAny_builds hf)
  unfold preImport
  split
  next => exact h
  next =>
    obtain ⟨hs, hbuilt⟩ := hbuilds s h.sound
    simp only [hf.wet]
    exact h.built hs hbuilt

/-- So does an import, rolled back or not. -/
theorem doImport_firm (hf : Faults may must imp) (h : Firm may fs base s) :
    Firm may fs base (doImport imp fs s).1 := by
  have hbuilds : Keeps (Builds may must fs) (importRepository imp fs) := importRepository_builds hf
  obtain ⟨hs, hbuilt⟩ := hbuilds s h.sound
  unfold doImport
  split
  next => exact h
  next =>
    cases hr : importRepository imp fs s with
    | mk s' err =>
      rw [hr] at hs hbuilt
      cases err with
      | some e => exact h.undone hbuilt
      | none =>
        simp only [hf.wet]
        exact h.built hs hbuilt

theorem Earlier.firm (h : Earlier fs may base s) (hbase : Fresh base) : Firm may fs base s := by
  induction h with
  | base => exact hbase.firm
  | preImport imp hf _ ih => exact preImport_firm hf ih
  | doImport imp hf _ ih => exact doImport_firm hf ih

/-! ## Completeness -/

/-- For every tag, the manifest and those associated with it have their rows, and the images among
them have each layer, with its blob, and the blob of the configuration. -/
def Complete (fs : Filesystem Bytes) (s : State Bytes) : Prop :=
  ∀ name d c, (name, d) ∈ s.db.tags →
    Relation.ReflTransGen (fun p c => (p, c) ∈ s.db.references) d c →
      s.db.hasManifest c = true ∧ ∀ v m, imageAt fs c = some (v, m) →
        m.config.digest ∈ s.dest ∧
          ∀ b ∈ m.layers, s.db.hasLayer c b.digest = true ∧ b.digest ∈ s.dest

/-- The manifests that come along with a tag: its own, and the members of a list. -/
def Along (fs : Filesystem Bytes) (d c : Digest) : Prop :=
  c = d ∨ ∃ l, ListImportable fs d l ∧ c ∈ l.manifests

/-- The blob is the configuration of an image that is imported as a dangling manifest. -/
def Enumerated (fs : Filesystem Bytes) (x : Digest) : Prop :=
  ∃ revisions, fs.revisions = some revisions ∧ ∃ d ∈ revisions, ∃ v m,
    imageAt fs d = some (v, m) ∧ m.config.digest = x

/-- The layer `b` of the image `m` cannot be missing: it can be stored, and if its transfer may
fail, it is at the destination already, or the import or the image fails without it. -/
def Covered (fs : Filesystem Bytes) (dangling : Bool) (dest : List Digest) (may : Digest → Prop)
    (m : Image Bytes) (b : Descriptor) : Prop :=
  (∃ b' ∈ m.layers, b'.digest = b.digest ∧ Storable b') ∧
    (may b.digest → b.digest ∈ dest ∨ b.digest = m.config.digest ∨
      (dangling = true ∧ Enumerated fs b.digest))

/-- What a tag leads to comes along with it. -/
theorem along_of_chain {db} (hs : Sound fs db) {d c} (hd : db.hasManifest d = true)
    (h : Relation.ReflTransGen (fun p c => (p, c) ∈ db.references) d c) :
    db.hasManifest c = true ∧ (c = d ∨ ∃ l, ListImportable fs d l ∧ c ∈ l.manifests ∧
      ∃ v m, Importable fs c v m) := by
  induction h with
  | refl => exact ⟨hd, .inl rfl⟩
  | tail hchain hstep ih =>
    obtain ⟨⟨l, hlist, hc⟩, himp, hrow⟩ := hs.references _ _ hstep
    obtain ⟨hb, rfl | ⟨l', -, -, v, m, hi⟩⟩ := ih
    · exact ⟨hrow, .inr ⟨l, hs.listImportable hlist hb, hc, himp⟩⟩
    · rw [listAt_of_imageAt hi.image] at hlist
      cases hlist

/-- INTERNAL: what is covered is complete. -/
theorem complete_of_covered (hf : Faults may must imp) {init : State Bytes}
    (hinit : Firm may fs base init)
    (hcovered : ∀ names name d c v m, fs.tags = some names → name ∈ names →
      fs.target name = some d → Along fs d c → Importable fs c v m → ∀ b ∈ m.layers,
        Covered fs imp.importDanglingManifests base.dest may m b)
    (hreturns : (importRepository imp fs init).2 = none) :
    Complete fs (importRepository imp fs init).1 := by
  have hbuilds : Keeps (Builds may must fs) (importRepository imp fs) := importRepository_builds hf
  obtain ⟨hsound, hbuilt⟩ := hbuilds init hinit.sound
  obtain ⟨-, hsolid, hkept, -⟩ := hinit.built hsound hbuilt
  intro name d c htag hchain
  obtain ⟨⟨names, hnames, hname⟩, htarget, hd⟩ := hsound.tags name d htag
  obtain ⟨hc, halong⟩ := along_of_chain hsound hd hchain
  refine ⟨hc, fun v m himage => ⟨(hsolid c hc).config v m himage, fun b hb => ?_⟩⟩
  have hi := hsound.importable himage hc
  have halong' : Along fs d c := halong.imp_right fun ⟨l, hl, hmem, _⟩ => ⟨l, hl, hmem⟩
  obtain ⟨⟨b', hb', hsame, hstore⟩, hsafe⟩ :=
    hcovered names name d c v m hnames hname htarget halong' hi b hb
  obtain ⟨hrow, hdest⟩ := (hsolid c hc).layers v m himage b' hb' hstore
  rw [hsame] at hrow hdest
  refine ⟨hrow, ?_⟩
  by_cases hmay : may b.digest
  · rcases hsafe hmay with hin | heq | ⟨hdangling, revisions, hrevisions, r, hr, v', m', hat, heq⟩
    · exact hkept hin
    · rw [heq]
      exact (hsolid c hc).config v m himage
    · -- the import has not failed on the configuration of the dangling manifest
      obtain ⟨hnamed, hlisted, -⟩ := listed_of_returns hreturns
      obtain ⟨revisions', hrevisions', hall⟩ :=
        hasManifest_of_listed hf hinit.sound hdangling hlisted
      cases hrevisions'.symm.trans hrevisions
      rcases hall r hr with hschema | hrow'
      · simp [imageAt, hschema] at hat
      have hgrows : Grows (listed imp fs init).1.db (importRepository imp fs init).1.db := by
        rw [importRepository_of_named hnamed, andThen_of_none hlisted]
        have hbuilds : Keeps (Builds may must fs) (importTags imp fs) :=
          importTags_keeps fun _ hnames _ => importTag_builds hf hnames
        exact (hbuilds _ (listed_builds hf _ hinit.sound).1).2.grows
      rw [← heq]
      exact (hsolid r (hgrows.hasManifest hrow')).config v' m' hat
  · exact hdest hmay

/-- INTERNAL: an import that can return does so, if no configuration of a dangling manifest can
fail; and it comes to the images whose configurations cannot fail. -/
theorem import_reaches (hf : Faults may must imp) (hbase : Fresh base)
    (haccepted : refuses imp base = false) (hcan : CanReturn fs imp.importDanglingManifests)
    (hdangling : imp.importDanglingManifests = true → ∀ x, may x → ¬ Enumerated fs x)
    {names} (hnames : fs.tags = some names) {name} (hname : name ∈ names)
    {d c} (htarget : fs.target name = some d) (halong : Along fs d c)
    (hi : Importable fs c v m) (hmay : ¬ may m.config.digest) :
    ∃ s, doImport imp fs base = (s, none) ∧ Sound fs s.db ∧
      Built may must fs base s ∧ (name, d) ∈ s.db.tags ∧
        Relation.ReflTransGen (fun p c => (p, c) ∈ s.db.references) d c := by
  obtain ⟨hsound, -⟩ : Firm may fs base base := hbase.firm
  have hlisted : (listed imp fs base).2 = none := by
    refine listed_returns hf hcan (fun hd revisions hrevisions r hr v' m' hat => ?_) hsound
    apply hf.sends
    intro hfail
    exact hdangling hd _ hfail ⟨revisions, hrevisions, r, hr, v', m', hat, rfl⟩
  obtain ⟨hrepository, hreturns⟩ := importRepository_of_listed hcan hlisted
  have hbuilds : Keeps (Builds may must fs) (importRepository imp fs) := importRepository_builds hf
  obtain ⟨hsound', hbuilt⟩ := hbuilds base hsound
  have hwritable : Writable fs d ∧ ∀ v' m', imageAt fs d = some (v', m') →
      ¬ may m'.config.digest := by
    rcases halong with rfl | ⟨l, hl, -⟩
    · refine ⟨.inl ⟨v, m, hi⟩, fun v' m' hat => ?_⟩
      cases hat.symm.trans hi.image
      exact hmay
    · refine ⟨.inr ⟨l, hl⟩, fun v' m' hat => ?_⟩
      have hlist := hl.list
      rw [listAt_of_imageAt hat] at hlist
      cases hlist
  have htag : (name, d) ∈ (importRepository imp fs base).1.db.tags := by
    rw [hrepository]
    exact mem_tags_importTags hf hwritable.1 (fun v' m' hat => hf.sends (hwritable.2 v' m' hat))
      (listed_builds hf _ hsound).1 hnames hname htarget
  refine ⟨_, doImport_of_repository hf.wet haccepted hreturns, hsound', hbuilt, htag, ?_⟩
  rcases halong with rfl | ⟨l, hl, hc⟩
  · exact .refl
  · apply Relation.ReflTransGen.single
    have hrow := (hsound'.tags name d htag).2.2
    have hsolid := (hbase.firm.built hsound' hbuilt).solid d hrow
    exact hsolid.members l hl.list c hc v m hi hmay

/-- A repository with one tag, on the image 1 with the configuration 2 and the layer 3. -/
def oneImage : Filesystem Unit where
  named := true
  tags := some [0]
  target _ := some ⟨.sha256, 1⟩
  revisions := some [⟨.sha256, 1⟩]
  manifest d := if d = ⟨.sha256, 1⟩ then some (.schema2 ⟨⟨2, .manifestV2⟩,
    ⟨.dockerConfig, ⟨.sha256, 2⟩, 1⟩, [⟨.dockerLayerGzip, ⟨.sha256, 3⟩, 1⟩], ()⟩) else none
  blob _ := some ()

def unused : State Unit := ⟨Database.empty Unit, [], 0⟩

theorem fresh_unused : Fresh unused := ⟨by decide, rfl, rfl, rfl, rfl⟩

end ContainerRegistry.Analysis.Imports
