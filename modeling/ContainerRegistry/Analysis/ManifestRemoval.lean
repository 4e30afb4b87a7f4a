import ContainerRegistry.Analysis.PathSeparation
import ContainerRegistry.Model.Vacuum

/-!
# Batches of manifests and the path scheme

The paths that `RemoveManifests` writes out by hand are those of `pathFor` (`manifestLink_eq`,
`tagLink_eq`), in batches of at most a hundred manifests (`removeManifestsFrom_batches`).
-/

namespace ContainerRegistry.Analysis.Vacuum

open Library.CleanPaths hiding join
open Model.Paths Model.Vacuum Analysis.Paths

structure WellFormed (m : ManifestDel) : Prop where
  name : ValidName m.name
  digest : validDigest m.digest = true
  tags : ∀ t ∈ m.tags, ValidTag t

/-- The paths that belong to a manifest: its revision link and the index entry link of each
tag. -/
def links (m : ManifestDel) : List (Option Str) :=
  pathFor (.manifestRevisionLink m.name m.digest) ::
    m.tags.map fun t => pathFor (.manifestTagIndexEntryLink m.name t m.digest)

variable {m : ManifestDel} {mm : List ManifestDel}

/-! ## The paths -/

theorem render_home (name : Str) {es : List Str} (hes : es ≠ []) :
    render '/' (home name ++ es) =
      "/docker/registry/v2/repositories/".toList ++ (name ++ '/' :: ['/'].intercalate es) := by
  have hsplit : name.splitOn '/' ≠ [] := List.splitOn_ne_nil _ _
  unfold render home
  rw [List.append_assoc, ← List.singleton_append (l := name.splitOn '/'), List.append_assoc,
    intercalate_append (by simp [top]) (by simp), intercalate_append (by simp) (by simp [hes]),
    intercalate_append hsplit hes, List.intercalate_splitOn]
  rfl

/-- The path of the link. -/
theorem manifestLink_eq (h : WellFormed m) :
    pathFor (.manifestRevisionLink m.name m.digest) = some (manifestLink m) := by
  have hvalid : Valid (.manifestRevisionLink m.name m.digest) := And.intro h.name h.digest
  have hmiddle : "/_manifests/revisions/".toList =
      '/' :: (manifestsDir ++ '/' :: ("revisions".toList ++ ['/'])) := rfl
  have hlink : "/link".toList = '/' :: "link".toList := rfl
  rw [pathFor_eq hvalid, layout, List.cons_append, render_home m.name (List.cons_ne_nil _ _)]
  unfold manifestLink
  rw [hmiddle, hlink]
  simp only [digestParts, digestPart, Bool.false_eq_true, if_false, List.cons_append,
    List.nil_append, List.intercalate_cons_cons, List.intercalate_singleton, List.append_assoc]

/-- The link of a tag is where `pathFor` has it. -/
theorem tagLink_eq (h : WellFormed m) {t} (ht : t ∈ m.tags) :
    pathFor (.manifestTagIndexEntryLink m.name t m.digest) = some (tagLink m t) := by
  have hvalid : Valid (.manifestTagIndexEntryLink m.name t m.digest) :=
    And.intro h.name (And.intro (h.tags t ht) h.digest)
  have hmiddle : "/_manifests/tags/".toList =
      '/' :: (manifestsDir ++ '/' :: ("tags".toList ++ ['/'])) := rfl
  have hindex : "/index/".toList = '/' :: ("index".toList ++ ['/']) := rfl
  have hlink : "/link".toList = '/' :: "link".toList := rfl
  rw [pathFor_eq hvalid, layout, List.cons_append, render_home m.name (List.cons_ne_nil _ _)]
  unfold tagLink
  rw [hmiddle, hindex, hlink]
  simp only [digestParts, digestPart, Bool.false_eq_true, if_false, List.cons_append,
    List.nil_append, List.intercalate_cons_cons, List.intercalate_singleton, List.append_assoc]

theorem links_eq (h : WellFormed m) :
    links m = (manifestLink m :: m.tags.map (tagLink m)).map some := by
  rw [links, manifestLink_eq h, List.map_cons, List.map_map]
  exact congrArg _ (List.map_congr_left fun t ht => tagLink_eq h ht)

/-! ## The batches -/

variable {ε : Type} {deleteFiles : List Str → Option ε}

variable (deleteFiles) in
/-- INTERNAL: one call deletes the links of all. -/
theorem removeManifestsBatch_eq (h : ∀ m ∈ mm, WellFormed m) (hne : mm ≠ []) :
    ∃ call, removeManifestsBatch deleteFiles mm = ([call], deleteFiles call) ∧
      (call.map some).Perm (mm.flatMap links) := by
  have hcolon : (mm.any fun m => !m.digest.contains ':') = false := by
    rw [List.any_eq_false]
    intro m hm
    simpa using (validDigest_cases (h m hm).digest).1
  refine ⟨mm.map manifestLink ++ mm.flatMap fun m => m.tags.map (tagLink m), ?_, ?_⟩
  · unfold removeManifestsBatch
    rw [hcolon, if_neg Bool.false_ne_true, if_neg (by simpa using fun hnil => absurd hnil hne)]
  · have hlinks : mm.flatMap links =
        (mm.flatMap fun m => manifestLink m :: m.tags.map (tagLink m)).map some := by
      rw [List.map_flatMap]
      exact List.flatMap_congr fun m hm => links_eq (h m hm)
    rw [hlinks]
    apply List.Perm.map
    -- all revision links come first, then all links of tags
    clear hcolon hlinks h hne
    induction mm with
    | nil => exact .refl _
    | cons m mm ih =>
      simp only [List.map_cons, List.flatMap_cons, List.cons_append]
      apply List.Perm.cons
      have hswap := List.perm_append_comm_assoc (mm.map manifestLink) (m.tags.map (tagLink m))
        (mm.flatMap fun m => m.tags.map (tagLink m))
      exact hswap.trans (ih.append_left _)

/-- INTERNAL: **the loop cuts what is left into batches.** -/
theorem removeManifestsFrom_batches (hok : ∀ call, deleteFiles call = none)
    (h : ∀ m ∈ mm, WellFormed m) (i : ℕ) :
    (removeManifestsFrom deleteFiles mm i).2 = none ∧
      ∃ batches : List (List ManifestDel), batches.flatten = mm.drop i ∧
        (∀ batch ∈ batches, batch.length ≤ maxBatchSize) ∧
        List.Forall₂ (fun call batch => (call.map some).Perm (batch.flatMap links))
          (removeManifestsFrom deleteFiles mm i).1 batches := by
  induction hn : mm.length - i using Nat.strong_induction_on generalizing i with
  | _ n ih =>
    rw [removeManifestsFrom]
    split
    next hi =>
      have hcut : mm.extract i (min (i + maxBatchSize) mm.length) =
          (mm.drop i).take maxBatchSize := by
        rw [List.extract_eq_take_drop, List.take_eq_take_iff, List.length_drop]
        omega
      have hbatch : (mm.drop i).take maxBatchSize ≠ [] := by
        simp [maxBatchSize, hi]
      obtain ⟨call, heq, hperm⟩ := removeManifestsBatch_eq deleteFiles
        (fun m hm => h m (List.mem_of_mem_drop (List.mem_of_mem_take hm))) hbatch
      have hless : mm.length - (i + maxBatchSize) < n := by
        simp only [maxBatchSize]
        omega
      obtain ⟨hnone, batches, hflat, hle, hall⟩ := ih _ hless _ rfl
      simp only [hcut, heq, hok]
      refine ⟨hnone, (mm.drop i).take maxBatchSize :: batches, ?_, ?_, .cons hperm hall⟩
      · rw [List.flatten_cons, hflat, ← List.drop_drop, List.take_append_drop]
      · intro batch hmem
        rcases List.mem_cons.1 hmem with rfl | hmem
        · exact List.length_take_le _ _
        · exact hle batch hmem
    next hi =>
      exact ⟨rfl, [], by simp [Nat.not_lt.1 hi], by simp, .nil⟩

/-- **Removing manifests in batches agrees with the path scheme**: the requests delete exactly the
paths `pathFor` gives for the manifests' links, at most a hundred manifests each. -/
theorem removal_matches_pathFor (hok : ∀ call, deleteFiles call = none)
    (h : ∀ m ∈ mm, WellFormed m) :
    (removeManifests deleteFiles mm).2 = none ∧
      ∃ batches : List (List ManifestDel), batches.flatten = mm ∧
        (∀ batch ∈ batches, batch.length ≤ 100) ∧
        List.Forall₂ (fun call batch => (call.map some).Perm (batch.flatMap links))
          (removeManifests deleteFiles mm).1 batches :=
  removeManifestsFrom_batches hok h 0

def zeros : Str := "sha256:".toList ++ List.replicate 64 '0'

/-- A manifest with two tags is removed by one request. -/
theorem tagged_manifest_removed : (removeManifests (ε := Unit) (fun _ => none)
      [⟨"a/b".toList, zeros, ["x".toList, "y".toList]⟩]).2 = none :=
  (removal_matches_pathFor (fun _ => rfl) (by
    intro m hm
    obtain rfl := List.mem_singleton.1 hm
    exact ⟨by decide +kernel, by decide +kernel, by decide +kernel⟩)).1

/-- A digest without a colon keeps a whole batch from being removed, without an error. And of a name
that is not valid a path is removed that is not the one of `pathFor`. -/
theorem ill_formed_not_removed :
    (removeManifests (ε := Unit) (fun _ => none)
        [⟨"a/b".toList, zeros, []⟩, ⟨"a/b".toList, "0".toList, []⟩] = ([], none) ∧
      pathFor (.manifestRevisionLink "a/b".toList zeros) =
        some (manifestLink ⟨"a/b".toList, zeros, []⟩)) ∧
    removeManifests (ε := Unit) (fun _ => none) [⟨"a//b".toList, zeros, []⟩] =
        ([[manifestLink ⟨"a//b".toList, zeros, []⟩]], none) ∧
      pathFor (.manifestRevisionLink "a//b".toList zeros) ≠
        some (manifestLink ⟨"a//b".toList, zeros, []⟩) := by
  have hend : ∀ mm : List ManifestDel, mm.length < 100 →
      removeManifestsFrom (ε := Unit) (fun _ => none) mm (0 + maxBatchSize) = ([], none) := by
    intro mm hmm
    rw [removeManifestsFrom, if_neg]
    simp only [maxBatchSize]
    omega
  refine ⟨⟨?_, by decide +kernel⟩, ?_, by decide +kernel⟩
  · rw [removeManifests, removeManifestsFrom, hend _ (by decide)]
    decide +kernel
  · rw [removeManifests, removeManifestsFrom, hend _ (by decide)]
    decide +kernel

end ContainerRegistry.Analysis.Vacuum
