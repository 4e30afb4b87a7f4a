import ContainerRegistry.Analysis.ImportStages

/-!
# Lists, tags and the repository

The import of a whole repository builds, from what is done for one image. `CanReturn` are the
repositories whose import returns no error, told from the filesystem unless a transfer fails.
-/

namespace ContainerRegistry.Analysis.Imports

open Library Model.Imports Stage
open Model (Digest TagName)
open Model.Manifests (MediaType Versioned)

variable {Bytes : Type} {imp : Importer} {fs : Filesystem Bytes}

variable {mm : Manifest Bytes} {d : Digest}

/-- An image, or an error. -/
theorem importManifest_cases (imp : Importer) (fs : Filesystem Bytes)
    (hmm : fs.manifest d = some mm) :
    (∃ v m, imageAt fs d = some (v, m) ∧
        importManifest imp fs d mm = importV2Manifest imp fs v m d) ∨
      (imageAt fs d = none ∧ ∃ e, importManifest imp fs d mm = .fail e) := by
  cases mm with
  | schema1 => exact .inr ⟨by simp [imageAt, hmm], _, rfl⟩
  | schema2 m => exact .inl ⟨m.versioned, m, by simp [imageAt, hmm], rfl⟩
  | ocischema m => exact .inl ⟨ociVersion m.versioned, m, by simp [imageAt, hmm], rfl⟩
  | list l => exact .inr ⟨by simp [imageAt, hmm], _, rfl⟩

/-- A list, or anything else. -/
theorem importAny_cases (imp : Importer) (fs : Filesystem Bytes) (hmm : fs.manifest d = some mm) :
    (∃ l, listAt fs d = some l ∧ importAny imp fs d mm = importManifestList imp fs l d) ∨
      (listAt fs d = none ∧ importAny imp fs d mm = importManifest imp fs d mm) := by
  cases mm with
  | list l => exact .inl ⟨l, by simp [listAt, hmm], rfl⟩
  | schema1 | schema2 | ocischema => exact .inr ⟨by simp [listAt, hmm], rfl⟩

/-! ## From the manifests to the repository

A relation that images, lists and tags keep is kept by the whole import. -/

section Keeps

variable {R : State Bytes → State Bytes → Prop} [IsPreorder (State Bytes) R]

theorem importManifest_keeps {d mm} (hmm : fs.manifest d = some mm)
    (himage : ∀ v m, imageAt fs d = some (v, m) → Keeps R (importV2Manifest imp fs v m d)) :
    Keeps R (importManifest imp fs d mm) := by
  rcases importManifest_cases imp fs hmm with ⟨v, m, hat, heq⟩ | ⟨-, e, heq⟩ <;> rw [heq]
  · exact himage v m hat
  · exact Keeps.fail

theorem importAny_keeps {d mm} (hmm : fs.manifest d = some mm)
    (himage : ∀ v m, imageAt fs d = some (v, m) → Keeps R (importV2Manifest imp fs v m d))
    (hlist : ∀ l, listAt fs d = some l → Keeps R (importManifestList imp fs l d)) :
    Keeps R (importAny imp fs d mm) := by
  rcases importAny_cases imp fs hmm with ⟨l, hat, heq⟩ | ⟨-, heq⟩ <;> rw [heq]
  · exact hlist l hat
  · exact importManifest_keeps hmm himage

theorem importRevision_keeps (d : Digest)
    (hany : ∀ mm, fs.manifest d = some mm → Keeps R (importAny imp fs d mm)) :
    Keeps R (importRevision imp fs d) := by
  unfold importRevision
  split
  next => exact Keeps.fail
  next hmm => exact (hany _ hmm).logged
  next mm _ hmm => exact hany mm hmm

/-- The manifest of a tag. -/
theorem tagManifest_keeps (d : Digest)
    (hany : ∀ mm, fs.manifest d = some mm → Keeps R (importAny imp fs d mm)) :
    Keeps R (tagManifest imp fs d) := by
  refine Keeps.andThen Keeps.check ?_
  intro s
  beta_reduce
  split
  next => exact refl_of R s
  next =>
    split
    next => exact refl_of R s
    next mm hmm => exact hany mm hmm s

theorem importManifests_keeps
    (hany : ∀ d mm, fs.manifest d = some mm → Keeps R (importAny imp fs d mm)) :
    Keeps R (importManifests imp fs) := by
  unfold importManifests
  split
  next => exact Keeps.fail
  next =>
    apply Keeps.forEach
    intro d _
    exact importRevision_keeps d (hany d)

theorem importTags_keeps
    (htag : ∀ names, fs.tags = some names → ∀ name ∈ names,
      Keeps R (importTag imp fs name)) : Keeps R (importTags imp fs) := by
  unfold importTags
  split
  next => exact Keeps.fail
  next names hnames =>
    apply Keeps.forEach
    intro name hname
    exact (htag names hnames name hname).logged

theorem importRepository_keeps (hrepository : Keeps R (createOrFindByPath : ImportStage Bytes))
    (hany : ∀ d mm, fs.manifest d = some mm → Keeps R (importAny imp fs d mm))
    (htag : ∀ names, fs.tags = some names → ∀ name ∈ names,
      Keeps R (importTag imp fs name)) : Keeps R (importRepository imp fs) := by
  refine Keeps.andThen Keeps.check ?_
  apply hrepository.andThen
  exact ((importManifests_keeps hany).when).andThen (importTags_keeps htag)

end Keeps

/-! ## Lists -/

variable {s : State Bytes} {p c : Digest} {l : ManifestList Bytes}

theorem ne_of_listAt (hlist : listAt fs p = some l) {v m}
    (himage : imageAt fs c = some (v, m)) : p ≠ c := by
  rintro rfl
  exact not_listAt himage hlist

theorem associateManifest_of_ne (h : p ≠ c) (s : State Bytes) :
    associateManifest p c s = ({ s with db := s.db.addReference p c }, none) := by
  rw [associateManifest, check_andThen_of_none (if_neg h)]
  rfl

theorem importMember_of_error (hmm : fs.manifest c = some mm) {e}
    (herr : (importManifest imp fs c mm s).2 = some e) :
    importMember imp fs p c s = ((importManifest imp fs c mm s).1, some e) := by
  simp only [importMember, hmm]
  rw [andThen_of_some herr]

theorem importManifestList_of_importable (hl : ListImportable fs d l) (s : State Bytes) :
    importManifestList imp fs l d s =
      Stage.forEach (fun c => (importMember imp fs d c).logged) l.manifests
        { s with db := withManifest s.db (listRow d l) } := by
  have hfind : findOrCreateDBManifest (listRow d l) s = _ :=
    findOrCreate_of_storable hl.digest hl.mediaType nofun s
  rw [importManifestList, andThen_of_ok hfind]

theorem Sound.listImportable {db} (h : Sound fs db) (hlist : listAt fs d = some l)
    (hd : db.hasManifest d = true) : ListImportable fs d l := by
  rcases h.writable hd with ⟨v, m, hi⟩ | ⟨l', hl⟩
  · exact (not_listAt hi.image hlist).elim
  · cases hl.list.symm.trans hlist
    exact hl

/-- A list that cannot be written is an error. -/
theorem importManifestList_fails (imp : Importer) (hlist : listAt fs d = some l)
    (hnot : ¬ ListImportable fs d l) :
    Fails (fun s => Sound fs s.db) (importManifestList imp fs l d) := by
  refine (findOrCreate_fails _ (fun h => hnot ⟨hlist, h.1, h.2⟩) fun s hs => ?_).andThen
  exact Bool.eq_false_iff.2 fun hhas => hnot (hs.listImportable hlist hhas)

theorem importRevision_of_ne (hmm : fs.manifest d = some mm) (hne : mm ≠ .schema1) :
    importRevision imp fs d = importAny imp fs d mm := by
  unfold importRevision
  cases mm with
  | schema1 => exact absurd rfl hne
  | schema2 m | ocischema m | list l => rw [hmm]

variable {may must : Digest → Prop} (hf : Faults may must imp)

section Members

include hf

/-- An image is built. -/
theorem importManifest_builds (hmm : fs.manifest d = some mm) :
    Keeps (Builds may must fs) (importManifest imp fs d mm) :=
  importManifest_keeps hmm fun _ _ => importV2Manifest_builds hf

/-- An image that comes out well has its row. -/
theorem importManifest_ok (hmm : fs.manifest d = some mm) (hs : Sound fs s.db)
    (hok : (importManifest imp fs d mm s).2 = none) :
    (∃ v m, Importable fs d v m) ∧ (importManifest imp fs d mm s).1.db.hasManifest d = true := by
  rcases importManifest_cases imp fs hmm with ⟨v, m, himage, heq⟩ | ⟨-, e, heq⟩ <;>
    rw [heq] at hok ⊢
  · obtain ⟨hi, hhas⟩ := importV2Manifest_ok hf himage hs hok
    exact ⟨⟨v, m, hi⟩, hhas⟩
  · cases hok

theorem importMember_of_ok (hlist : listAt fs p = some l) (hmm : fs.manifest c = some mm)
    (hs : Sound fs s.db) (hok : (importManifest imp fs c mm s).2 = none) :
    importMember imp fs p c s =
      ({ (importManifest imp fs c mm s).1 with
          db := (importManifest imp fs c mm s).1.db.addReference p c }, none) := by
  obtain ⟨⟨v, m, hi⟩, -⟩ := importManifest_ok hf hmm hs hok
  simp only [importMember, hmm]
  rw [andThen_of_none hok, associateManifest_of_ne (ne_of_listAt hlist hi.image)]

/-- A member is built, -/
theorem importMember_builds (hlist : listAt fs p = some l) (hc : c ∈ l.manifests) :
    Keeps (Builds may must fs) (importMember imp fs p c) := by
  cases hmm : fs.manifest c with
  | none =>
    simp only [importMember, hmm]
    exact Keeps.fail
  | some mm =>
    refine builds_of fun s hs => ?_
    have hbuilds : Keeps (Builds may must fs) (importManifest imp fs c mm) :=
      importManifest_builds hf hmm
    obtain ⟨hs', hbuilt⟩ := hbuilds s hs
    cases hend : (importManifest imp fs c mm s).2 with
    | some e =>
      rw [importMember_of_error hmm hend]
      exact ⟨hs', hbuilt⟩
    | none =>
      rw [importMember_of_ok hf hlist hmm hs hend]
      obtain ⟨himp, hrow⟩ := importManifest_ok hf hmm hs hend
      exact ⟨hs'.addReference hlist hc himp hrow,
        hbuilt.trans (built_of_db (grows_addReference _ _ _) rfl)⟩

/-- The members are built. -/
theorem importMembers_builds (hlist : listAt fs p = some l) : Keeps (Builds may must fs)
    (Stage.forEach (fun c => (importMember imp fs p c).logged) l.manifests) :=
  Keeps.forEach fun _ hc => (importMember_builds hf hlist hc).logged

/-- which is associated unless it can fail, -/
theorem importMember_solid {v m} (hlist : listAt fs p = some l) (hi : Importable fs c v m)
    (hmay : ¬ may m.config.digest) (hs : Sound fs s.db) :
    (p, c) ∈ (importMember imp fs p c s).1.db.references := by
  obtain ⟨mm, hmm⟩ : ∃ mm, fs.manifest c = some mm := by
    have himage := hi.image
    cases hmm : fs.manifest c with
    | none => simp [imageAt, hmm] at himage
    | some mm => exact ⟨mm, rfl⟩
  have hok : (importManifest imp fs c mm s).2 = none := by
    rcases importManifest_cases imp fs hmm with ⟨v', m', hat, heq⟩ | ⟨hat, -⟩ <;>
      cases hat.symm.trans hi.image
    rw [heq]
    exact importV2Manifest_returns hi (hf.sends hmay) hs
  rw [importMember_of_ok hf hlist hmm hs hok]
  exact mem_references_addReference _ _ _

/-- and a list. -/
theorem importManifestList_builds (hlist : listAt fs d = some l) :
    Keeps (Builds may must fs) (importManifestList imp fs l d) := by
  by_cases hl : ListImportable fs d l
  · refine builds_of fun s hs => ?_
    rw [importManifestList_of_importable hl]
    have hsound := hs.withManifest (.inr ⟨l, hl⟩ : Writable fs (listRow d l).digest)
    have hbuilds := fun c (hc : c ∈ l.manifests) => (importMember_builds hf hlist hc).logged
    -- once a member is associated, the other members leave it so
    have hall := forEach_all (I := fun s : State Bytes => Sound fs s.db)
      (P := fun (c : Digest) (s : State Bytes) => ∀ v m, Importable fs c v m →
        ¬ may m.config.digest → (d, c) ∈ s.db.references)
      (fun c _ s _ => rfl) (fun c hc s hs => (hbuilds c hc s hs).1)
      (fun c _ s hs v m hi hmay => importMember_solid hf hlist hi hmay hs)
      (fun c c' hc' s hs hP v m hi hmay =>
        (hbuilds c' hc' s hs).2.grows.references (hP v m hi hmay))
      (s := { s with db := withManifest s.db (listRow d l) }) hsound
    obtain ⟨hsound', hmembers⟩ := importMembers_builds hf hlist
      { s with db := withManifest s.db (listRow d l) } hsound
    refine ⟨hsound', ?_⟩
    apply built_of_manifest (t := { s with db := withManifest s.db (listRow d l) }) (d := d)
      (grows_withManifest _ _) rfl (fun d' hd' => hasManifest_of_withManifest hd') hmembers
    refine ⟨fun v m himage => ?_, fun v m himage => ?_, fun l' hat => ?_⟩
    · exact (not_listAt himage hlist).elim
    · exact (not_listAt himage hlist).elim
    · cases hat.symm.trans hlist
      exact fun c hc => hall.2.2 c (.inl hc)
  · apply Fails.onward
    exact importManifestList_fails imp hlist hl

theorem importAny_builds (hmm : fs.manifest d = some mm) :
    Keeps (Builds may must fs) (importAny imp fs d mm) :=
  importAny_keeps hmm (fun _ _ => importV2Manifest_builds hf) fun _ => importManifestList_builds hf

/-- A manifest that comes out well has its row. -/
theorem importAny_ok (hmm : fs.manifest d = some mm) (hs : Sound fs s.db)
    (hok : (importAny imp fs d mm s).2 = none) :
    (importAny imp fs d mm s).1.db.hasManifest d = true := by
  rcases importAny_cases imp fs hmm with ⟨l, hlist, heq⟩ | ⟨-, heq⟩ <;> rw [heq] at hok ⊢
  · by_cases hl : ListImportable fs d l
    · rw [importManifestList_of_importable hl]
      obtain ⟨-, hbuilt⟩ := importMembers_builds hf hlist
        { s with db := withManifest s.db (listRow d l) } (hs.withManifest (.inr ⟨l, hl⟩))
      exact hbuilt.grows.hasManifest (hasManifest_withManifest s.db (listRow d l))
    · obtain ⟨e, he⟩ := importManifestList_fails imp hlist hl
      rw [he s hs] at hok
      cases hok
  · exact (importManifest_ok hf hmm hs hok).2

end Members

/-! ## Tags -/

theorem tagManifest_of_has (hd : newDigest d = none) (hhas : s.db.hasManifest d = true) :
    tagManifest imp fs d s = (s, none) := by
  rw [tagManifest, check_andThen_of_none hd]
  exact if_pos hhas

theorem tagManifest_of_missing (hd : newDigest d = none) (hhas : s.db.hasManifest d = false)
    (hmm : fs.manifest d = some mm) : tagManifest imp fs d s = importAny imp fs d mm s := by
  rw [tagManifest, check_andThen_of_none hd]
  simp [hhas, hmm]

/-- **What becomes of the manifest of a tag**: it cannot be read, is there, or is imported. -/
inductive Tagged (imp : Importer) (fs : Filesystem Bytes) (d : Digest) (s : State Bytes) :
    State Bytes × Option ImportError → Prop where
  | unread (e : ImportError)
      (h : newDigest d ≠ none ∨ s.db.hasManifest d = false ∧ fs.manifest d = none) :
      Tagged imp fs d s (s, some e)
  | found (hd : newDigest d = none) (hhas : s.db.hasManifest d = true) :
      Tagged imp fs d s (s, none)
  | missing (mm : Manifest Bytes) (hd : newDigest d = none) (hhas : s.db.hasManifest d = false)
      (hmm : fs.manifest d = some mm) : Tagged imp fs d s (importAny imp fs d mm s)

/-- There is no other case. -/
theorem tagManifest_tagged (imp : Importer) (fs : Filesystem Bytes) (d : Digest)
    (s : State Bytes) : Tagged imp fs d s (tagManifest imp fs d s) := by
  cases hd : newDigest d with
  | some e =>
    rw [tagManifest, check_andThen_of_some hd]
    exact .unread e (.inl (by simp [hd]))
  | none =>
    cases hhas : s.db.hasManifest d with
    | true =>
      rw [tagManifest_of_has hd hhas]
      exact .found hd hhas
    | false =>
      cases hmm : fs.manifest d with
      | none =>
        rw [tagManifest, check_andThen_of_none hd]
        simp only [hhas, hmm]
        exact .unread _ (.inr ⟨hhas, hmm⟩)
      | some mm =>
        rw [tagManifest_of_missing hd hhas hmm]
        exact .missing mm hd hhas hmm

/-! ### Pre-import -/

/-- A pre-import handles the manifest of a tag like an import. -/
theorem preImportTag_state {name} (htarget : fs.target name = some d) (s : State Bytes) :
    (preImportTag imp fs name s).1 = (tagManifest imp fs d s).1 := by
  simp only [preImportTag, htarget]
  have hcases := tagManifest_tagged imp fs d s
  generalize tagManifest imp fs d s = r at hcases ⊢
  cases hd : newDigest d with
  | some e =>
    rw [check_andThen_of_some rfl]
    cases hcases with
    | unread => rfl
    | found hd' | missing mm hd' => cases hd.symm.trans hd'
  | none =>
    rw [check_andThen_of_none rfl]
    cases hcases with
    | found hd hhas => simp [hhas]
    | missing mm hd hhas hmm =>
      simp only [hhas, preImportManifest, hmm]
      rfl
    | unread e h =>
      obtain ⟨hhas, hmm⟩ := h.resolve_left fun hne => hne hd
      simp only [hhas, preImportManifest, hmm]
      rfl

theorem preImportTag_keeps {R : State Bytes → State Bytes → Prop} [IsPreorder (State Bytes) R]
    (name : TagName)
    (hany : ∀ d mm, fs.manifest d = some mm → Keeps R (importAny imp fs d mm)) :
    Keeps R (preImportTag imp fs name) := by
  cases htarget : fs.target name with
  | none =>
    simp only [preImportTag, htarget]
    exact Keeps.fail
  | some d =>
    intro s
    rw [preImportTag_state htarget]
    exact tagManifest_keeps d (hany d) s

theorem preImport_keeps {R : State Bytes → State Bytes → Prop} [IsPreorder (State Bytes) R]
    (hrepository : Keeps R (createOrFindByPath : ImportStage Bytes))
    (hany : ∀ d mm, fs.manifest d = some mm → Keeps R (importAny imp fs d mm)) :
    Keeps R (createOrFindByPath.andThen (preImportTaggedManifests imp fs)) := by
  apply hrepository.andThen
  unfold preImportTaggedManifests
  split
  next => exact Keeps.fail
  next => exact Keeps.forEach fun name _ => (preImportTag_keeps name hany).logged

section Repository

include hf

/-- So has that of a tag. -/
theorem tagManifest_ok (hs : Sound fs s.db) (hok : (tagManifest imp fs d s).2 = none) :
    (tagManifest imp fs d s).1.db.hasManifest d = true := by
  have hcases := tagManifest_tagged imp fs d s
  generalize tagManifest imp fs d s = r at hok hcases ⊢
  cases hcases with
  | unread => cases hok
  | found hd hhas => exact hhas
  | missing mm hd hhas hmm => exact importAny_ok hf hmm hs hok

/-- A tag brings its manifest along. -/
theorem importTag_builds {names} (hnames : fs.tags = some names) {name}
    (hname : name ∈ names) : Keeps (Builds may must fs) (importTag imp fs name) := by
  cases htarget : fs.target name with
  | none =>
    simp only [importTag, htarget]
    exact Keeps.fail
  | some d =>
    refine builds_of fun s hs => ?_
    have hbuilds : Keeps (Builds may must fs) (tagManifest imp fs d) :=
      tagManifest_keeps d fun mm => importAny_builds hf
    obtain ⟨hs', hbuilt⟩ := hbuilds s hs
    simp only [importTag, htarget]
    cases hend : (tagManifest imp fs d s).2 with
    | some e =>
      rw [andThen_of_some hend]
      exact ⟨hs', hbuilt⟩
    | none =>
      rw [andThen_of_none hend]
      obtain ⟨hsound, hgrows⟩ := Sound.putTag hs' hnames hname htarget (tagManifest_ok hf hs hend)
      exact ⟨hsound, hbuilt.trans (built_of_db hgrows rfl)⟩

omit hf in
theorem createOrFindByPath_builds :
    Keeps (Builds may must fs) (createOrFindByPath : ImportStage Bytes) :=
  builds_of fun _ hs => ⟨hs.addRepository, built_of_db (grows_addRepository _) rfl⟩

/-- **An import adds solid manifests only.** -/
theorem importRepository_builds : Keeps (Builds may must fs) (importRepository imp fs) := by
  apply importRepository_keeps createOrFindByPath_builds
  · exact fun _ _ => importAny_builds hf
  · exact fun _ hnames _ => importTag_builds hf hnames

end Repository

/-! ## Imports that return -/

section

variable (hwritable : Writable fs d)
  (hsends : ∀ v m, imageAt fs d = some (v, m) → Sends imp Bytes m.config.digest)
  (hs : Sound fs s.db)
include hwritable hsends hs

/-- INTERNAL: a manifest that can be written is imported without an error, if no configuration can
fail. -/
theorem importAny_returns (hmm : fs.manifest d = some mm) : (importAny imp fs d mm s).2 = none := by
  rcases importAny_cases imp fs hmm with ⟨l, hlist, heq⟩ | ⟨hlist, heq⟩ <;> rw [heq] <;>
    rcases hwritable with ⟨v, m, hi⟩ | ⟨l', hl⟩
  · exact (not_listAt hi.image hlist).elim
  · cases hl.list.symm.trans hlist
    rw [importManifestList_of_importable hl]
    exact forEach_logged (importMember imp fs d) l.manifests _
  · rcases importManifest_cases imp fs hmm with ⟨v', m', hat, heq'⟩ | ⟨hat, -⟩ <;>
      cases hat.symm.trans hi.image
    rw [heq']
    exact importV2Manifest_returns hi (hsends v m hi.image) hs
  · cases hl.list.symm.trans hlist

/-- So is that of a tag. -/
theorem tagManifest_returns : (tagManifest imp fs d s).2 = none := by
  obtain ⟨mm, hmm, -⟩ := hwritable.manifest
  cases hhas : s.db.hasManifest d with
  | true => rw [tagManifest_of_has hwritable.digest hhas]
  | false =>
    rw [tagManifest_of_missing hwritable.digest hhas hmm]
    exact importAny_returns hwritable hsends hs hmm

include hf in
/-- INTERNAL: a tag is written if its manifest can be. -/
theorem mem_tags_importTags {names} (hnames : fs.tags = some names) {name}
    (hname : name ∈ names) (htarget : fs.target name = some d) :
    (name, d) ∈ (importTags imp fs s).1.db.tags := by
  have hwrites : ∀ s : State Bytes, Sound fs s.db →
      (name, d) ∈ (importTag imp fs name s).1.db.tags := by
    intro s hs
    simp only [importTag, htarget]
    rw [andThen_of_none (tagManifest_returns hwritable hsends hs)]
    exact mem_tags_putTag _ _ _
  simp only [importTags, hnames]
  have hkeeps := fun x (hx : x ∈ names) => (importTag_builds hf hnames hx).logged
  have hloop := forEach_all (I := fun s : State Bytes => Sound fs s.db)
    (P := fun x s => x = name → (name, d) ∈ s.db.tags) (fun _ _ _ _ => rfl)
    (fun x hx s hs => (hkeeps x hx s hs).1) (fun x _ s hs hx => hx ▸ hwrites s hs)
    (fun x y hy s hs hP hx => (hkeeps y hy s hs).2.grows.tags (hP hx)) hs
  exact hloop.2.2 name (.inl hname) rfl

end

def listed (imp : Importer) (fs : Filesystem Bytes) : ImportStage Bytes := fun s =>
  Stage.when imp.importDanglingManifests (importManifests imp fs)
    { s with db := s.db.addRepository }

theorem importRepository_of_named (hnamed : fs.named = true) (s : State Bytes) :
    importRepository imp fs s = (listed imp fs).andThen (importTags imp fs) s := by
  rw [importRepository, checkName, check_andThen_of_none (if_pos hnamed)]
  rfl

/-- An import that returns has listed everything. -/
theorem listed_of_returns (h : (importRepository imp fs s).2 = none) :
    fs.named = true ∧ (listed imp fs s).2 = none ∧ ∃ names, fs.tags = some names := by
  cases hnamed : fs.named with
  | false =>
    rw [importRepository, checkName, check_andThen_of_some (if_neg (by simp [hnamed]))] at h
    cases h
  | true =>
    rw [importRepository_of_named hnamed] at h
    cases hlisted : (listed imp fs s).2 with
    | some e =>
      rw [andThen_of_some hlisted] at h
      cases h
    | none =>
      rw [andThen_of_none hlisted] at h
      refine ⟨rfl, rfl, ?_⟩
      cases hnames : fs.tags with
      | none =>
        simp only [importTags, hnames] at h
        cases h
      | some names => exact ⟨names, rfl⟩

include hf in
/-- The dangling manifests are built. -/
theorem listed_builds : Keeps (Builds may must fs) (listed imp fs) := by
  intro s
  apply trans_of (Builds may must fs) (createOrFindByPath_builds s)
  apply Keeps.when
  exact importManifests_keeps fun _ _ => importAny_builds hf

/-- The name and the tags can be read, and dangling manifests, if they are imported, can be written
or are of schema 1. -/
structure CanReturn (fs : Filesystem Bytes) (dangling : Bool) : Prop where
  named : fs.named = true
  tags : fs.tags.isSome
  revisions : dangling = true → ∃ revisions, fs.revisions = some revisions ∧
    ∀ d ∈ revisions, fs.manifest d = some .schema1 ∨ Writable fs d

include hf in
/-- The revisions have their rows then. -/
theorem hasManifest_of_listed (hs : Sound fs s.db) (hdangling : imp.importDanglingManifests = true)
    (h : (listed imp fs s).2 = none) :
    ∃ revisions, fs.revisions = some revisions ∧ ∀ d ∈ revisions,
      fs.manifest d = some .schema1 ∨ (listed imp fs s).1.db.hasManifest d = true := by
  unfold listed at h ⊢
  simp only [Stage.when, hdangling, if_true] at h ⊢
  cases hrevisions : fs.revisions with
  | none =>
    simp only [importManifests, hrevisions] at h
    cases h
  | some revisions =>
    simp only [importManifests, hrevisions] at h ⊢
    refine ⟨revisions, rfl, fun d hd => ?_⟩
    have hkeeps : ∀ d ∈ revisions, Keeps (Builds may must fs) (importRevision imp fs d) :=
      fun d _ => importRevision_keeps d fun _ => importAny_builds hf
    obtain ⟨t, hst, hok, hend⟩ := forEach_of_none hkeeps h d hd
    obtain ⟨ht, -⟩ := hst hs.addRepository
    cases hmm : fs.manifest d with
    | none =>
      simp only [importRevision, hmm] at hok
      cases hok
    | some mm =>
      by_cases hschema : mm = .schema1
      · exact .inl (by rw [hschema])
      · rw [importRevision_of_ne hmm hschema] at hok hend
        obtain ⟨-, hbuilt⟩ := hend (importAny_builds hf hmm t ht).1
        exact .inr (hbuilt.grows.hasManifest (importAny_ok hf hmm ht hok))

include hf in
/-- An import that returns no error can. -/
theorem canReturn_of_returns (hs : Sound fs s.db) (h : (importRepository imp fs s).2 = none) :
    CanReturn fs imp.importDanglingManifests := by
  obtain ⟨hnamed, hlisted, names, hnames⟩ := listed_of_returns h
  refine ⟨hnamed, by rw [hnames]; rfl, fun hdangling => ?_⟩
  obtain ⟨revisions, hrevisions, hall⟩ := hasManifest_of_listed hf hs hdangling hlisted
  refine ⟨revisions, hrevisions, fun r hr => (hall r hr).imp_right fun hrow => ?_⟩
  exact (listed_builds hf _ hs).1.writable hrow

theorem importRevision_returns (h : fs.manifest d = some .schema1 ∨ Writable fs d)
    (hsends : ∀ v m, imageAt fs d = some (v, m) → Sends imp Bytes m.config.digest)
    (hs : Sound fs s.db) : (importRevision imp fs d s).2 = none := by
  rcases h with hschema | hwritable
  · simp only [importRevision, hschema]
    rfl
  · obtain ⟨mm, hmm, hne⟩ := hwritable.manifest
    rw [importRevision_of_ne hmm hne]
    exact importAny_returns hwritable hsends hs hmm

include hf in
/-- Everything is listed, if no configuration can fail. -/
theorem listed_returns (hcan : CanReturn fs imp.importDanglingManifests)
    (hsends : imp.importDanglingManifests = true → ∀ revisions, fs.revisions = some revisions →
      ∀ d ∈ revisions, ∀ v m, imageAt fs d = some (v, m) → Sends imp Bytes m.config.digest)
    (hs : Sound fs s.db) : (listed imp fs s).2 = none := by
  unfold listed Stage.when
  split
  next hdangling =>
    obtain ⟨revisions, hrevisions, hall⟩ := hcan.revisions hdangling
    simp only [importManifests, hrevisions]
    have hkeeps : ∀ d ∈ revisions, Keeps (Builds may must fs) (importRevision imp fs d) :=
      fun d _ => importRevision_keeps d fun _ => importAny_builds hf
    have hloop := forEach_all (I := fun s : State Bytes => Sound fs s.db)
      (P := fun _ _ => True) (fun d hd s hs => ?_) (fun d hd s hs => (hkeeps d hd s hs).1)
      (fun _ _ _ _ => trivial) (fun _ _ _ _ _ _ => trivial)
      (s := { s with db := s.db.addRepository }) hs.addRepository
    · exact hloop.1
    · exact importRevision_returns (hall d hd) (hsends hdangling revisions hrevisions d hd) hs
  next => rfl

theorem importRepository_of_listed (hcan : CanReturn fs imp.importDanglingManifests)
    (hlisted : (listed imp fs s).2 = none) :
    importRepository imp fs s = importTags imp fs (listed imp fs s).1 ∧
      (importRepository imp fs s).2 = none := by
  have heq : importRepository imp fs s = importTags imp fs (listed imp fs s).1 := by
    rw [importRepository_of_named hcan.named, andThen_of_none hlisted]
  obtain ⟨names, hnames⟩ := Option.isSome_iff_exists.1 hcan.tags
  refine ⟨heq, ?_⟩
  rw [heq]
  simp only [importTags, hnames]
  exact forEach_logged (importTag imp fs) names _

/-- An import that returns is not undone. -/
theorem doImport_of_returns (hwet : imp.dryRun = false) (h : (doImport imp fs s).2 = none) :
    refuses imp s = false ∧ (importRepository imp fs s).2 = none ∧
      (doImport imp fs s).1 = (importRepository imp fs s).1 := by
  unfold doImport at h ⊢
  cases hrefuses : refuses imp s with
  | true =>
    rw [hrefuses] at h
    cases h
  | false =>
    rw [hrefuses] at h
    cases hr : importRepository imp fs s with
    | mk s' err =>
      rw [hr] at h
      cases err with
      | some e => cases h
      | none => simp [hwet]

theorem doImport_of_repository (hwet : imp.dryRun = false) (hrefuses : refuses imp s = false)
    (h : (importRepository imp fs s).2 = none) :
    doImport imp fs s = ((importRepository imp fs s).1, none) := by
  unfold doImport
  rw [hrefuses]
  cases hr : importRepository imp fs s with
  | mk s' err =>
    rw [hr] at h
    cases h
    simp [hwet]

end ContainerRegistry.Analysis.Imports
