import ContainerRegistry.Analysis.Marking

/-!
# Collection without `RemoveUntagged`

Every manifest with a revision link is kept with what it refers to (`Reachable`). A repository is
`Visible` when it has its `_layers` directory and the first listing of its revision links is not
masked. A `Smooth` run marks exactly what is reachable from visible repositories.
-/

namespace ContainerRegistry.Analysis.Offline

open Library Model List

variable {S : Storage} {w : Walker} {faults : Faults} {sched : Schedule} {dryRun : Bool}
  {name : Path} {turns : List Turn} {out : Collected}

/-! ## What is to be kept -/

/-- A revision link of the repository reaches `b`: a linked manifest, or what it refers to. -/
def Reachable (S : Storage) (n : Name) (b : Digest) : Prop :=
  ∃ d m, RevisionLink S n.components d ∧ Serves S n.components d m ∧ (b = d ∨ b ∈ m.references)

/-- A run comes to see the manifests of the repository. -/
def Visible (w : Walker) (faults : Faults) (S : Storage) (n : Name) : Prop :=
  HasLayers S n.components ∧ ¬ Masked w faults n.components

def Readable (faults : Faults) (S : Storage) (name : Path) : Prop :=
  ∀ d, Found faults S name d → ∃ m, getManifest (faults (.referenced name d)) S name d = .ok m

structure Smooth (w : Walker) (faults : Faults) (S : Storage) : Prop where
  repositories : Walker.Present w S.toObjectTree (pathFor .repositoriesRoot) ∧
    Answered (Walker.listing w) S.toObjectTree (faults .repositories) entersRepository
      (pathFor .repositoriesRoot)
  revisions : ∀ n : Name, Visible w faults S n → Listed w faults S n.components
  manifests : ∀ n : Name, Visible w faults S n → Readable faults S n.components
  blobs : Walker.Present w S.toObjectTree (pathFor .blobs) ∧
    Answered (Walker.listing w) S.toObjectTree (faults .blobs) (fun _ => true) (pathFor .blobs)

section Repository

variable {evs : List MarkEvent} {err : Option StoreError}

section

variable (hname : validName name = true)
  (h : markRepository w faults ⟨dryRun, false⟩ S turns name = some (evs, err))
include hname h

theorem markRepository_keep :
    ∃ r, enumerateManifests w faults S name turns = some r ∧
      (if r.error.all WalkError.onlyPathNotFound then
        markReferenced faults S name [] r.effects.dedup
      else ([], some (.other .enumeratingManifests))) = (evs, err) := by
  unfold markRepository at h
  rw [if_pos hname] at h
  obtain ⟨r, hr, heq⟩ := Option.map_eq_some_iff.1 h
  exact ⟨r, hr, heq⟩

theorem markRepository_masked (hm : Masked w faults name) : evs = [] ∧ err = none := by
  obtain ⟨r, hr, heq⟩ := markRepository_keep hname h
  obtain ⟨heff, hall⟩ := enumerateManifests_masked hm hr
  rw [if_pos hall, heff] at heq
  cases heq
  exact ⟨rfl, rfl⟩

/-- What a repository marks. -/
theorem markRepository_visible (hm : ¬ Masked w faults name) :
    (err = none ↔ Listed w faults S name ∧ Readable faults S name) ∧
      (err = none → ∀ ev, ev ∈ evs ↔ ∃ b, Reachable S ⟨name, hname⟩ b ∧ ev = .mark b) := by
  obtain ⟨r, hr, heq⟩ := markRepository_keep hname h
  obtain ⟨hall, hfound⟩ := enumerateManifests_spec hm hr
  by_cases hl : Listed w faults S name
  · rw [if_pos (hall.2 hl)] at heq
    have hread : (∃ ms, getManifests (fun d => faults (.referenced name d)) S name
        r.effects.dedup = .ok ms) ↔ Readable faults S name := by
      rw [exists_getManifests]
      simp only [mem_dedup, hfound hl]
      rfl
    unfold markReferenced at heq
    split at heq
    · next e herr =>
      cases heq
      refine ⟨⟨nofun, fun ⟨_, hr⟩ => ?_⟩, nofun⟩
      obtain ⟨ms, hms⟩ := hread.2 hr
      rw [herr] at hms
      cases hms
    next ms hms =>
    cases heq
    refine ⟨⟨fun _ => ⟨hl, hread.1 ⟨ms, hms⟩⟩, fun _ => rfl⟩, fun _ ev => ?_⟩
    obtain ⟨hhas, hserves⟩ := getManifests_ok hms
    simp only [nil_append, mem_append, mem_map, mem_dedup, mem_flatMap, hfound hl] at hhas hserves ⊢
    constructor
    · rintro (⟨d, hd, rfl⟩ | ⟨b, ⟨x, hx, hb⟩, rfl⟩)
      · obtain ⟨m, hm⟩ := hhas d hd
        exact ⟨d, ⟨d, m, hd.revisionLink, (hserves _ hm).2, .inl rfl⟩, rfl⟩
      · obtain ⟨hd, hm⟩ := hserves x hx
        exact ⟨b, ⟨x.1, x.2, hd.revisionLink, hm, .inr hb⟩, rfl⟩
    · rintro ⟨b, ⟨d, m, hlink, hm, hb⟩, rfl⟩
      have hd : Found faults S name d := by
        obtain ⟨t, ht, hread⟩ := hm
        have hpres : Walker.Present w S.toObjectTree (pathFor (.manifestRevisions name)) := by
          by_contra habs
          obtain ⟨p, hp, _⟩ := hlink
          exact not_below_of_absent habs hp
        exact found_of_revisionLink (hl.2 hpres) hlink ht ⟨_, hread⟩
      rcases hb with rfl | hb
      · exact .inl ⟨b, hd, rfl⟩
      · obtain ⟨m', hm'⟩ := hhas d hd
        refine .inr ⟨b, ⟨(d, m'), hm', ?_⟩, rfl⟩
        rwa [(hserves _ hm').2.unique hm]
  · rw [if_neg fun hn => hl (hall.1 hn)] at heq
    cases heq
    exact ⟨⟨nofun, fun hn => absurd hn.1 hl⟩, nofun⟩

end

end Repository

/-! ## A run -/

section Repositories

variable {r : Walked Segment MarkEvent Failure}

/-- When marking succeeds. -/
theorem markRepositories_ok_iff (h : markRepositories w faults ⟨dryRun, false⟩ sched S = some r) :
    r.error = none ↔
      (Walker.Present w S.toObjectTree (pathFor .repositoriesRoot) ∧
        Answered (Walker.listing w) S.toObjectTree (faults .repositories) entersRepository
          (pathFor .repositoriesRoot)) ∧
      ∀ n : Name, Visible w faults S n →
        Listed w faults S n.components ∧ Readable faults S n.components := by
  constructor
  · intro hok
    obtain ⟨hpres, hans, _⟩ := (repositories_ok_iff h).1 hok
    refine ⟨⟨hpres, hans⟩, fun n hn => ?_⟩
    obtain ⟨evs, hevs, _⟩ := repositories_complete h hok n.valid hn.1
    exact (markRepository_visible n.valid hevs hn.2).1.1 rfl
  · rintro ⟨⟨hpres, hans⟩, hvis⟩
    refine (repositories_ok_iff h).2 ⟨hpres, hans, fun name hname hlayers evs e hevs => ?_⟩
    by_cases hm : Masked w faults name
    · cases (markRepository_masked hname hevs hm).2
    · cases (markRepository_visible hname hevs hm).1.2 (hvis ⟨name, hname⟩ ⟨hlayers, hm⟩)

/-- What is marked is reachable. -/
theorem mem_effects (h : markRepositories w faults ⟨dryRun, false⟩ sched S = some r)
    (hok : r.error = none) (ev : MarkEvent) :
    ev ∈ r.effects ↔ ∃ n b, Visible w faults S n ∧ Reachable S n b ∧ ev = .mark b := by
  constructor
  · intro hev
    obtain ⟨name, evs, hname, hlayers, hevs, hmem⟩ := repositories_sound h hok hev
    by_cases hm : Masked w faults name
    · rw [(markRepository_masked hname hevs hm).1] at hmem
      cases hmem
    · obtain ⟨b, hb, rfl⟩ := ((markRepository_visible hname hevs hm).2 rfl ev).1 hmem
      exact ⟨⟨name, hname⟩, b, ⟨hlayers, hm⟩, hb, rfl⟩
  · rintro ⟨n, b, hn, hb, rfl⟩
    obtain ⟨evs, hevs, hsub⟩ := repositories_complete h hok n.valid hn.1
    exact hsub _ (((markRepository_visible n.valid hevs hn.2).2 rfl _).2 ⟨b, hb, rfl⟩)

end Repositories

section

variable (h : markAndSweep w faults ⟨dryRun, false⟩ sched S = some out)
include h

/-- **A run returns no error exactly when all it asks for is answered.** -/
theorem markAndSweep_ok_iff : out.error = none ↔ Smooth w faults S := by
  obtain ⟨r, hr, _, herr, hblobs⟩ := markAndSweep_ok h
  have hrepos := markRepositories_ok_iff hr
  constructor
  · intro hok
    obtain ⟨hroot, hvis⟩ := hrepos.1 (herr hok)
    obtain ⟨b, hb, hiff, _⟩ := hblobs (herr hok)
    exact ⟨hroot, fun n hn => (hvis n hn).1, fun n hn => (hvis n hn).2,
      (blobs_ok_iff hb).1 (hiff.1 hok)⟩
  · intro hs
    obtain ⟨b, hb, hiff, _⟩ := hblobs (hrepos.2
      ⟨hs.repositories, fun n hn => ⟨hs.revisions n hn, hs.manifests n hn⟩⟩)
    exact hiff.2 ((blobs_ok_iff hb).2 hs.blobs)

/-- **It has then marked what visible repositories reach.** -/
theorem mem_marked (hok : out.error = none) {b} :
    b ∈ out.marked ↔ ∃ n, Visible w faults S n ∧ Reachable S n b := by
  obtain ⟨r, hr, hmarked, herr, _⟩ := markAndSweep_ok h
  rw [hmarked, mem_filterMap]
  constructor
  · rintro ⟨ev, hev, hb⟩
    obtain ⟨n, b', hn, hb', rfl⟩ := (mem_effects hr (herr hok) ev).1 hev
    cases hb
    exact ⟨n, hn, hb'⟩
  · rintro ⟨n, hn, hb⟩
    exact ⟨.mark b, (mem_effects hr (herr hok) _).2 ⟨n, b, hn, hb, rfl⟩, rfl⟩

theorem stored_iff_marked (hok : out.error = none) (hdry : dryRun = false) {b} :
    Stored out.storage b ↔ Stored S b ∧ b ∈ out.marked := by
  obtain ⟨r, _, _, herr, hblobs⟩ := markAndSweep_ok h
  obtain ⟨bl, hbl, hiff, hstorage⟩ := hblobs (herr hok)
  rw [hstorage (hiff.1 hok) hdry, stored_sweep, mem_enumerateBlobs hbl (hiff.1 hok)]
  exact ⟨fun ⟨hs, hn⟩ => ⟨hs, not_not.1 fun hm => hn ⟨hs, hm⟩⟩,
    fun ⟨hs, hm⟩ => ⟨hs, fun hn => hn.2 hm⟩⟩

end

/-! ## Exactness -/

/-- **The survivors are the reachable blobs.** With every repository in its place and no failing
request, a successful run leaves exactly the blobs that a revision link reaches, under every
schedule; a dry run leaves all. garbagecollect.go:85-405 -/
theorem survivors_reachable
    (hlayers : ∀ n : Name, (∃ d, RevisionLink S n.components d) → HasLayers S n.components)
    (h : markAndSweep w noFaults ⟨dryRun, false⟩ sched S = some out) :
    (dryRun = true → out.storage = S) ∧
      (dryRun = false → out.error = none →
        ∀ b, Stored out.storage b ↔ Stored S b ∧ ∃ n, Reachable S n b) := by
  refine ⟨fun hdry => markAndSweep_dryRun h hdry, fun hdry hok b => ?_⟩
  rw [stored_iff_marked h hok hdry, mem_marked h hok]
  refine and_congr_right fun _ => exists_congr fun n => ⟨fun hn => hn.2, fun hb => ?_⟩
  have hlink : ∃ d, RevisionLink S n.components d := by
    obtain ⟨d, m, hlink, _⟩ := hb
    exact ⟨d, hlink⟩
  exact ⟨⟨hlayers n hlink, fun hm => (by cases hm.2)⟩, hb⟩

def sampleDigest (n : ℕ) : Digest := ⟨.sha256, n⟩

def sampleName : Name := ⟨[.word 0], rfl⟩

/-- A repository with a tag on a manifest list, whose only member is a list with one image. -/
def nestedImage : Storage where
  entries := [(pathFor (.layers sampleName.components), .dir)] ++
    ([10, 11, 12].map fun n =>
      (pathFor (.manifestRevisionLink sampleName.components (sampleDigest n)),
        .file (.link (sampleDigest n)))) ++
    [(pathFor (.manifestTagCurrent sampleName.components (.word 1)),
      .file (.link (sampleDigest 10)))] ++
    [(pathFor (.blobData (sampleDigest 10)), .file (.manifest (.list [sampleDigest 11]))),
     (pathFor (.blobData (sampleDigest 11)), .file (.manifest (.list [sampleDigest 12]))),
     (pathFor (.blobData (sampleDigest 12)),
       .file (.manifest (.image (some (sampleDigest 13)) [sampleDigest 14]))),
     (pathFor (.blobData (sampleDigest 13)), .file .other),
     (pathFor (.blobData (sampleDigest 14)), .file .other)]
  leaf := by decide +kernel
  repositories_laid := by decide +kernel
  blobs_laid := by decide +kernel

/-- INTERNAL: a storage with `_layers` before every underscore has it for every repository with
manifests. -/
theorem hasLayers_of_entries
    (h : ∀ e ∈ S.entries, pathFor .repositoriesRoot <+: e.1 →
      S.occupied (pathFor (.layers ((e.1.drop (pathFor .repositoriesRoot).length).takeWhile
        fun c => !c.special))) = true)
    (n : Name) (hn : S.occupied (repoPrefix n.components ++ [.manifests]) = true) :
    HasLayers S n.components := by
  obtain ⟨r, o, hmem⟩ := ObjectTree.occupied_iff.1 hn
  have hpath : repoPrefix n.components ++ [.manifests] ++ r =
      pathFor .repositoriesRoot ++ (n.components ++ .manifests :: r) := by
    simp [pathFor, repoPrefix]
  rw [hpath] at hmem
  have hocc := h _ hmem (prefix_append _ _)
  rw [drop_left, (split_at_special (not_special_of_valid n.valid) rfl).1] at hocc
  exact hocc

theorem nestedImage_hasLayers (n : Name) (h : ∃ d, RevisionLink nestedImage n.components d) :
    HasLayers nestedImage n.components := by
  refine hasLayers_of_entries (by decide +kernel) n ?_
  obtain ⟨d, p, ⟨hocc, c, q, rfl⟩, _⟩ := h
  refine ObjectTree.occupied_of_append (q := .revisions :: c :: q) ?_
  simpa [pathFor] using hocc

/-- An image two lists below a tag. -/
theorem survivors_reachable_nested :
    ∃ out, markAndSweep .fallback noFaults ⟨false, false⟩ ⟨[], fun _ => [], []⟩ nestedImage =
        some out ∧ out.error = none ∧
      ∀ b, Stored out.storage b ↔ Stored nestedImage b ∧ ∃ n, Reachable nestedImage n b := by
  have hrun : ((markAndSweep .fallback noFaults ⟨false, false⟩ ⟨[], fun _ => [], []⟩
      nestedImage).any fun out => decide (out.error = none)) = true := by decide +kernel
  obtain ⟨out, hout, hok⟩ := (Option.any_eq_true _ _).1 hrun
  have hok : out.error = none := of_decide_eq_true hok
  exact ⟨out, hout, hok, (survivors_reachable nestedImage_hasLayers hout).2 rfl hok⟩

/-! ## Failing requests -/

/-- A run deletes nothing and reports an error, or it has marked all that is reachable and
keeps it. -/
def FailSafe (S : Storage) (out : Collected) : Prop :=
  (out.error ≠ none ∧ out.storage = S) ∨
    ∀ n b, Reachable S n b → b ∈ out.marked ∧ (Stored S b → Stored out.storage b)

/-- **When all runs are safe.** Every run fails safe exactly when, if it is smooth, all that hidden
repositories reach is also reached from a visible one. garbagecollect.go:161-199, s3.go:1197-1296 -/
theorem fail_safe_iff :
    (∀ sched out, markAndSweep w faults ⟨dryRun, false⟩ sched S = some out → FailSafe S out) ↔
      (Smooth w faults S → ∀ n b, Reachable S n b →
        ∃ n', Visible w faults S n' ∧ Reachable S n' b) := by
  constructor
  · intro hsafe hs n b hb
    obtain ⟨sched, out, h⟩ := exists_markAndSweep w faults ⟨dryRun, false⟩ S
    have hok := (markAndSweep_ok_iff h).2 hs
    rcases hsafe sched out h with ⟨herr, _⟩ | hall
    · exact absurd hok herr
    · exact (mem_marked h hok).1 (hall n b hb).1
  · intro hcond sched out h
    by_cases hok : out.error = none
    · right
      intro n b hb
      have hmark := (mem_marked h hok).2 (hcond ((markAndSweep_ok_iff h).1 hok) n b hb)
      refine ⟨hmark, fun hs => ?_⟩
      cases hdry : dryRun with
      | true => rwa [markAndSweep_dryRun h hdry]
      | false => exact (stored_iff_marked h hok hdry).2 ⟨hs, hmark⟩
    · exact .inl ⟨hok, markAndSweep_error h hok⟩

def listingFails : Faults := fun phase q =>
  decide (phase = .revisions sampleName.components) &&
    decide (q = .list (pathFor (.manifestRevisions sampleName.components)) 0)

theorem nestedImage_reachable : Reachable nestedImage sampleName (sampleDigest 13) := by
  refine ⟨sampleDigest 12, .image (some (sampleDigest 13)) [sampleDigest 14], ?_, ?_, ?_⟩
  · refine ⟨pathFor (.manifestRevisionLink sampleName.components (sampleDigest 12)),
      ⟨by decide +kernel, .algorithm .sha256, [.hex 12, .link], rfl⟩, rfl, by decide +kernel⟩
  · exact ⟨sampleDigest 12, .inl (by decide +kernel), by decide +kernel⟩
  · exact .inr (by decide +kernel)

/-- **One failed listing empties a repository.** The parallel S3 walk reports the root as missing,
and the run sweeps all blobs without an error. -/
theorem masked_repository_swept :
    ∃ sched out, markAndSweep .s3Parallel listingFails ⟨false, false⟩ sched nestedImage =
      some out ∧ ¬ FailSafe nestedImage out := by
  have hrun : ((markAndSweep .s3Parallel listingFails ⟨false, false⟩
      ⟨List.replicate 4 (.run 0), fun _ => [], List.replicate 19 (.run 0)⟩ nestedImage).any
        fun out => decide (out.error = none) && decide (sampleDigest 13 ∉ out.marked)) = true := by
    decide +kernel
  obtain ⟨out, hout, hok⟩ := (Option.any_eq_true _ _).1 hrun
  rw [Bool.and_eq_true, decide_eq_true_eq, decide_eq_true_eq] at hok
  refine ⟨_, out, hout, ?_⟩
  rintro (⟨herr, _⟩ | hall)
  · exact herr hok.1
  · exact hok.2 (hall _ _ nestedImage_reachable).1

end ContainerRegistry.Analysis.Offline
