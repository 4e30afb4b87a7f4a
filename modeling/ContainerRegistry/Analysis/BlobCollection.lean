import ContainerRegistry.Analysis.Integrity

/-!
# Blob garbage collection: what the triggers keep track of

The mirror tables hold the references to blobs, and the review queue every blob without any, in
every reachable state (`blobs_tracked`).
-/

namespace ContainerRegistry.Analysis

open Library Model

theorem layers_mirrored {rows} (hc : Consistent schema rows) (h : Tracked rows) :
    (rows.filterMap layerMirror.task).Perm (rows.filterMap layerMirror.item) := by
  refine Tracking.tasks_perm_items hc.1 (fun _ => rfl) h.layers ?_
  rintro i ⟨r, hr, hi⟩
  cases r <;> simp [layerMirror] at hi
  subst hi
  obtain ⟨m, hm⟩ := layer_of_mirror hc hr
  exact ⟨_, hm, rfl⟩

theorem configurations_mirrored {rows} (hc : Consistent schema rows) (h : Tracked rows) :
    (rows.filterMap configurationMirror.task).Perm (rows.filterMap configurationMirror.item) := by
  refine Tracking.tasks_perm_items hc.1 (fun _ => rfl) h.configurations ?_
  rintro i ⟨r, hr, hi⟩
  cases r <;> simp [configurationMirror] at hi
  subst hi
  obtain ⟨d, p, hm, hp⟩ := manifest_of_mirror hc hr
  exact ⟨_, hm, by simp [configurationMirror, hp]⟩

theorem blobReferenced_eq_false {view digest} :
    blobReferenced view digest = false ↔
      (∀ repo id, .gcBlobLayer repo id digest ∉ view) ∧
      ∀ repo id, .gcBlobConfiguration repo id digest ∉ view := by
  rw [← Bool.not_eq_true, blobReferenced_iff]
  constructor
  · exact fun h => ⟨fun _ _ hr => h ⟨_, hr, rfl⟩, fun _ _ hr => h ⟨_, hr, rfl⟩⟩
  · rintro ⟨hlayer, hconfig⟩ ⟨r, hr, hi⟩
    cases r <;> simp [blobTracking] at hi <;> subst hi
    · exact hlayer _ _ hr
    · exact hconfig _ _ hr

/-- **No untracked dangling blob.** In every reachable state the mirror tables have exactly one row
for each layer and each configuration, and a blob that neither mentions has a record in
`gc_blob_review_queue`. blobworker.go:97-158 -/
theorem blobs_tracked {c : Settings} {s : State} (h : Reachable c s) :
    (s.db.db.filterMap layerMirror.task).Perm (s.db.db.filterMap layerMirror.item) ∧
    (s.db.db.filterMap configurationMirror.task).Perm (s.db.db.filterMap configurationMirror.item) ∧
    ∀ digest, .blob digest ∈ s.db.db →
      (∀ repo id, .gcBlobLayer repo id digest ∉ s.db.db) →
      (∀ repo id, .gcBlobConfiguration repo id digest ∉ s.db.db) →
      ∃ after count, .blobReview digest after count ∈ s.db.db := by
  have hi := integrity_of_reach h
  have hc : Consistent schema s.db.db := hi.healthy.sound.base
  refine ⟨layers_mirrored hc hi.healthy.tracked, configurations_mirrored hc hi.healthy.tracked, ?_⟩
  intro digest hb hlayer hconfig
  have hfree := blobReferenced_eq_false.2 ⟨hlayer, hconfig⟩
  rcases hi.healthy.tracked.blobs digest ⟨_, hb, rfl⟩ with href | ⟨r, hr, hd⟩
  · simp [blobReferenced_iff.2 href] at hfree
  · cases r <;> simp [blobTracking] at hd
    exact ⟨_, _, hd ▸ hr⟩

/-- An image with a layer is pushed and deleted again: both blobs are up for review. -/
theorem deleted_image_tracked :
    ∃ s, Reachable standard s ∧ .blob Sample.layer ∈ s.db.db ∧
      s.db.db.filterMap layerMirror.task = [] ∧
      ∃ after count, .blobReview Sample.layer after count ∈ s.db.db := by
  obtain ⟨s, hs, hb, hlayers, hfree⟩ : ∃ s, Reachable standard s ∧ .blob Sample.layer ∈ s.db.db ∧
      s.db.db.filterMap layerMirror.item = [] ∧ blobReferenced s.db.db Sample.layer = false :=
    exists_reach
      (calls 1 (.uploadBlob Sample.repo Sample.config) 5 ++
        calls 1 (.uploadBlob Sample.repo Sample.layer) 5 ++ calls 1 (.putImage Sample.layered) 14 ++
        calls 1 (.deleteManifest Sample.repo Sample.layered.digest) 4)
      (by decide +kernel)
  obtain ⟨hmirror, -, hqueue⟩ := blobs_tracked hs
  obtain ⟨hl, hcfg⟩ := blobReferenced_eq_false.1 hfree
  exact ⟨s, hs, hb, (hlayers ▸ hmirror).eq_nil, hqueue _ hb hl hcfg⟩

end ContainerRegistry.Analysis
