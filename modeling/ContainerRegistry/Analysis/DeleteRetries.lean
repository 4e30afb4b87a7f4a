import ContainerRegistry.Library.Runs
import ContainerRegistry.Model.Deletes

/-!
# Retrying deletes

In a `Sighted` state whatever is linked in one of the two stores is linked on the filesystem, with
its data there. A handler takes the word of the filesystem, so from such a state success and 404
mean that nothing is linked. A request that fails half way leaves another state.
-/

namespace ContainerRegistry.Analysis.Deletes

open Library Model.Deletes Function Stage
open Model (Digest TagName)

variable {cfg : Config} {faults : Faults} {o : Object}

/-! ## What deletes keep -/

/-- An object is linked in neither store, and no tag of either store points to it. -/
def Gone : Object → Metadata → Prop
  | .blob d, s => s.fs.layers d = false ∧ s.db.blobs d = false
  | .tag t, s => s.fs.current t = none ∧ s.db.tags t = none
  | .manifest d, s =>
    (s.fs.revisions d = false ∧ s.fs.layers d = false ∧ ∀ t, s.fs.current t ≠ some d) ∧
      s.db.manifests d = false ∧ ∀ t, s.db.tags t ≠ some d

structure Shrinks (s s' : Metadata) : Prop where
  layers : ∀ d, s'.fs.layers d = true → s.fs.layers d = true
  revisions : ∀ d, s'.fs.revisions d = true → s.fs.revisions d = true
  current : ∀ t d, s'.fs.current t = some d → s.fs.current t = some d
  blobs : ∀ d, s'.db.blobs d = true → s.db.blobs d = true
  manifests : ∀ d, s'.db.manifests d = true → s.db.manifests d = true
  tags : ∀ t d, s'.db.tags t = some d → s.db.tags t = some d

theorem Shrinks.refl (s : Metadata) : Shrinks s s where
  layers := fun _ h => h
  revisions := fun _ h => h
  current := fun _ _ h => h
  blobs := fun _ h => h
  manifests := fun _ h => h
  tags := fun _ _ h => h

instance : IsPreorder Metadata Shrinks where
  refl := Shrinks.refl
  trans _ _ _ h h' :=
    { layers := fun d hd => h.layers d (h'.layers d hd)
      revisions := fun d hd => h.revisions d (h'.revisions d hd)
      current := fun t d ht => h.current t d (h'.current t d ht)
      blobs := fun d hd => h.blobs d (h'.blobs d hd)
      manifests := fun d hd => h.manifests d (h'.manifests d hd)
      tags := fun t d ht => h.tags t d (h'.tags t d ht) }

variable {s s' : Metadata}

/-- What is gone stays gone. -/
theorem Gone.shrinks (h : Gone o s) (hs : Shrinks s s') : Gone o s' := by
  cases o with
  | blob d =>
    refine ⟨Bool.eq_false_iff.2 fun hd => ?_, Bool.eq_false_iff.2 fun hd => ?_⟩
    · exact absurd (hs.layers d hd) (Bool.eq_false_iff.1 h.1)
    · exact absurd (hs.blobs d hd) (Bool.eq_false_iff.1 h.2)
  | tag t =>
    refine ⟨Option.eq_none_iff_forall_ne_some.2 fun d hd => ?_,
      Option.eq_none_iff_forall_ne_some.2 fun d hd => ?_⟩
    · exact absurd (hs.current t d hd) (by rw [h.1]; nofun)
    · exact absurd (hs.tags t d hd) (by rw [h.2]; nofun)
  | manifest d =>
    obtain ⟨⟨hrev, hlay, hcur⟩, hman, htags⟩ := h
    refine ⟨⟨Bool.eq_false_iff.2 fun hd => ?_, Bool.eq_false_iff.2 fun hd => ?_, fun t ht => ?_⟩,
      Bool.eq_false_iff.2 fun hd => ?_, fun t ht => ?_⟩
    · exact absurd (hs.revisions d hd) (Bool.eq_false_iff.1 hrev)
    · exact absurd (hs.layers d hd) (Bool.eq_false_iff.1 hlay)
    · exact hcur t (hs.current t d ht)
    · exact absurd (hs.manifests d hd) (Bool.eq_false_iff.1 hman)
    · exact htags t (hs.tags t d ht)

variable {step : Step}

theorem perform_keeps {R : Metadata → Metadata → Prop} [IsPreorder Metadata R]
    {change : Metadata → Metadata} (h : ∀ s, R s (change s)) :
    Keeps R (perform faults step change) := by
  intro s
  unfold perform
  cases faults.fails step with
  | none => apply h
  | some done =>
    cases done with
    | true => apply h
    | false => exact refl_of R s

theorem ask_shrinks {f : Metadata → Option DeleteError} : Keeps Shrinks (ask faults step f) := by
  apply Keeps.check

theorem refuse_shrinks {c} : Keeps Shrinks (refuse c) := by
  apply Keeps.check

variable {d : Digest}

theorem deleteLayerLink_shrinks : Keeps Shrinks (deleteLayerLink faults d) := by
  apply perform_keeps
  intro s
  exact { Shrinks.refl s with layers := fun _ h => of_update_false h }

theorem deleteRevisionLink_shrinks : Keeps Shrinks (deleteRevisionLink faults d) := by
  apply perform_keeps
  intro s
  exact { Shrinks.refl s with revisions := fun _ h => of_update_false h }

/-- Looking up adds nothing. -/
theorem cachedStat_shrinks : Keeps Shrinks (cachedStat faults d) := by
  intro s
  unfold cachedStat
  split
  · apply Shrinks.refl
  split
  · apply Shrinks.refl
  cases statLayer faults d s.fs with
  | some e => apply Shrinks.refl
  | none =>
    dsimp only
    split
    · apply Shrinks.refl
    · exact { Shrinks.refl s with }

theorem fsDeleteBlob_shrinks : Keeps Shrinks (fsDeleteBlob cfg faults d) := by
  apply refuse_shrinks.andThen
  apply cachedStat_shrinks.andThen
  apply Keeps.andThen _ deleteLayerLink_shrinks
  apply perform_keeps
  intro s
  exact { Shrinks.refl s with }

theorem fsDeleteManifest_shrinks : Keeps Shrinks (fsDeleteManifest cfg faults d) := by
  apply refuse_shrinks.andThen
  refine Keeps.andThen Keeps.check ?_
  apply deleteRevisionLink_shrinks.andThen
  apply deleteLayerLink_shrinks

variable {s : Metadata} {t : TagName}

theorem removeTag_shrinks {current index} :
    Shrinks s { s with fs := s.fs.removeTag t current index } :=
  { Shrinks.refl s with current := fun _ _ h => of_removeCurrent h }

/-- Deleting a tag adds nothing. -/
theorem untag_shrinks : Keeps Shrinks (untag faults t) := by
  apply ask_shrinks.andThen
  intro s
  unfold removeTagDirectory
  cases faults.untag t with
  | some parts => apply removeTag_shrinks
  | none =>
    dsimp only
    split
    · apply removeTag_shrinks
    · apply Shrinks.refl

theorem untagManifest_shrinks : Keeps Shrinks (untagManifest faults d) := by
  refine Keeps.andThen Keeps.check ?_
  apply Keeps.read
  intro tags
  apply Keeps.forEach
  intro t _
  apply untag_shrinks.mapError

theorem unlinkBlob_shrinks : Shrinks s { s with db := s.db.unlinkBlob d } :=
  { Shrinks.refl s with blobs := fun _ h => of_update_false h }

/-- Nor does deleting a blob, -/
theorem dbDeleteBlob_shrinks : Keeps Shrinks (dbDeleteBlob cfg faults d) := by
  apply refuse_shrinks.andThen
  apply ask_shrinks.andThen
  intro s
  dsimp only
  cases faults.fails .unlinkBlob with
  | some done =>
    cases done with
    | true => apply unlinkBlob_shrinks
    | false => apply Shrinks.refl
  | none =>
    dsimp only
    split
    · apply unlinkBlob_shrinks
    · apply Shrinks.refl

theorem dbDeleteTag_shrinks : Keeps Shrinks (dbDeleteTag faults t) := by
  apply ask_shrinks.andThen
  apply ask_shrinks.andThen
  apply ask_shrinks.andThen
  apply ask_shrinks.andThen
  apply ask_shrinks.andThen
  apply perform_keeps
  intro s
  exact { Shrinks.refl s with tags := fun _ _ h => of_update_tag h }

/-- or a manifest. -/
theorem dbDeleteManifest_shrinks : Keeps Shrinks (dbDeleteManifest cfg faults d) := by
  apply refuse_shrinks.andThen
  apply ask_shrinks.andThen
  apply ask_shrinks.andThen
  apply ask_shrinks.andThen
  apply Keeps.andThen
  · intro s
    apply Keeps.when
    apply ask_shrinks.andThen
    apply ask_shrinks.when
  apply ask_shrinks.andThen
  apply perform_keeps
  intro s
  refine { Shrinks.refl s with manifests := fun _ h => of_update_false h, tags := ?_ }
  intro t d' h
  dsimp only [Database.deleteManifest] at h
  split at h
  · cases h
  · exact h

/-- **A delete adds nothing.** -/
theorem delete_shrinks : Keeps Shrinks (delete cfg faults o) := by
  cases o with
  | blob d =>
    apply (fsDeleteBlob_shrinks.when).andThen
    apply (dbDeleteBlob_shrinks.when).andThen
    apply Keeps.check
  | tag t =>
    apply refuse_shrinks.andThen
    apply (untag_shrinks.when).andThen
    apply dbDeleteTag_shrinks.when
  | manifest d =>
    apply Keeps.andThen
    · apply Keeps.when
      apply fsDeleteManifest_shrinks.andThen untagManifest_shrinks
    · apply dbDeleteManifest_shrinks.when

/-! ## One request -/

/-- What is still linked in one of the stores is linked on the filesystem, and its data is
there. -/
def Sighted : Object → Metadata → Prop
  | .blob d, s =>
    s.fs.layers d = true ∨ s.db.blobs d = true → s.fs.layers d = true ∧ s.fs.data d = true
  | .tag t, s =>
    s.db.tags t ≠ none → s.fs.directory = true ∧ (s.fs.current t ≠ none ∨ s.fs.index t = true)
  | .manifest d, s =>
    (s.fs.revisions d = true ∨ s.fs.layers d = true ∨ s.db.manifests d = true ∨
        ∃ t, s.fs.current t = some d) →
      (s.fs.revisions d = true ∨ s.fs.layers d = true) ∧ s.fs.data d = true

/-- What an error of a request may be answered for: if the answer is 404, the object is gone. -/
def Told (o : Object) (e : DeleteError) (s : Metadata) : Prop :=
  (answer o (some e)).settles = true → Gone o s

theorem told_internal : Told o .internal s := by
  intro h
  cases o <;> cases h

theorem told_unsupported : Told o .unsupported s := by
  intro h
  cases o <;> cases h

theorem told_referenced : Told o .manifestReferencedInList s := by
  intro h
  cases o <;> cases h

/-- The rule for queries. -/
theorem ask_meets {P Q : Metadata → Prop} {f : Metadata → Option DeleteError}
    (hok : ∀ s, P s → f s = none → Q s) (herr : ∀ s e, P s → f s = some e → Told o e s) :
    Meets P (ask faults step f) Q (Told o) := by
  apply Meets.check
  · intro s hs hf
    split at hf
    · cases hf
    · exact hok s hs hf
  · intro s e hs hf
    split at hf
    · cases hf
      exact told_internal
    · exact herr s e hs hf

theorem ask_keeps {P : Metadata → Prop} {f : Metadata → Option DeleteError}
    (herr : ∀ s e, P s → f s = some e → Told o e s) : Meets P (ask faults step f) P (Told o) :=
  ask_meets (fun _ hs _ => hs) herr

theorem ask_meets_any {P : Metadata → Prop} :
    Meets P (ask faults step fun _ => none) P (Told o) := ask_keeps nofun

theorem perform_meets {P Q : Metadata → Prop} {change : Metadata → Metadata}
    (h : ∀ s, P s → Q (change s)) : Meets P (perform faults step change) Q (Told o) := by
  intro s hs
  unfold perform
  cases faults.fails step with
  | none => apply h s hs
  | some done => apply told_internal

theorem refuse_meets {P : Metadata → Prop} {c} : Meets P (refuse c) P (Told o) := by
  apply Meets.check
  · intro s hs _
    exact hs
  · intro s e _ hf
    split at hf <;> cases hf
    exact told_unsupported

theorem statData_unknown {fs e} (h : statData faults d fs = some e) :
    e = .internal ∨ (e = .blobUnknown ∧ ¬fs.data d = true) := by
  unfold statData at h
  split at h
  · exact Or.inl (Option.some.inj h).symm
  split at h
  · cases h
  next hdata => exact Or.inr ⟨(Option.some.inj h).symm, hdata⟩

theorem statLayer_unknown {fs e} (h : statLayer faults d fs = some e) :
    e = .internal ∨ (e = .blobUnknown ∧ ¬(fs.layers d = true ∧ fs.data d = true)) := by
  unfold statLayer at h
  split at h
  · exact Or.inl (Option.some.inj h).symm
  split at h
  · exact (statData_unknown h).imp id fun h => ⟨h.1, fun hboth => h.2 hboth.2⟩
  next hlayer => exact Or.inr ⟨(Option.some.inj h).symm, fun hboth => hlayer hboth.1⟩

/-- A revision is unknown only if it cannot be served. -/
theorem statRevision_unknown {fs e} (h : statRevision faults d fs = some e) :
    e = .internal ∨
      (e = .blobUnknown ∧ ¬((fs.revisions d = true ∨ fs.layers d = true) ∧ fs.data d = true)) := by
  unfold statRevision at h
  split at h
  · exact Or.inl (Option.some.inj h).symm
  split at h
  · exact (statData_unknown h).imp id fun h => ⟨h.1, fun hboth => h.2 hboth.2⟩
  next hrev =>
    rcases statLayer_unknown h with he | ⟨he, hnot⟩
    · exact Or.inl he
    · exact Or.inr ⟨he, fun hboth => hnot ⟨hboth.1.resolve_left hrev, hboth.2⟩⟩

/-- The link of a blob is removed, or an error told. -/
theorem fsDeleteBlob_meets :
    Meets (Sighted (.blob d)) (fsDeleteBlob cfg faults d) (fun s => s.fs.layers d = false)
      (Told (.blob d)) := by
  have hunknown : ∀ s e, Sighted (.blob d) s → statLayer faults d s.fs = some e →
      Told (.blob d) e s := by
    intro s e hs he
    rcases statLayer_unknown he with rfl | ⟨rfl, hnot⟩
    · exact told_internal
    · intro _
      have hnone : ¬(s.fs.layers d = true ∨ s.db.blobs d = true) := fun h => hnot (hs h)
      rw [not_or, Bool.not_eq_true, Bool.not_eq_true] at hnone
      exact hnone
  apply refuse_meets.andThen
  apply Meets.andThen (Q := fun _ => True)
  · intro s hs
    unfold cachedStat
    cases hstat : statLayer faults d s.fs with
    | some e =>
      have htold := hunknown s e hs hstat
      split
      · exact htold
      split
      · trivial
      · exact htold
    | none =>
      split
      · trivial
      split
      · trivial
      dsimp only
      split <;> trivial
  apply Meets.andThen (Q := fun _ => True)
  · apply perform_meets
    intro s _
    trivial
  · apply perform_meets
    intro s _
    exact update_self _ _ _

/-- So is its row. -/
theorem dbDeleteBlob_meets :
    Meets (fun s => s.fs.layers d = false) (dbDeleteBlob cfg faults d) (Gone (.blob d))
      (Told (.blob d)) := by
  apply refuse_meets.andThen
  refine (ask_keeps fun s e hs he _ => ?_).andThen ?_
  · split at he
    · cases he
    next hrepo =>
      exact ⟨hs, Bool.eq_false_iff.2 fun hd => hrepo (s.db.blobs_repository d hd)⟩
  · intro s hs
    dsimp only
    cases faults.fails .unlinkBlob with
    | some done => apply told_internal
    | none =>
      dsimp only
      split
      · exact ⟨hs, update_self _ _ _⟩
      next hblob =>
        intro _
        exact ⟨hs, Bool.eq_false_iff.2 hblob⟩

/-- The directory of a tag is removed. -/
theorem removeTagDirectory_ok (h : removeTagDirectory faults t s = (s', none)) :
    s'.fs.current t = none := by
  unfold removeTagDirectory at h
  cases hf : faults.untag t with
  | some parts =>
    rw [hf] at h
    cases h
  | none =>
    rw [hf] at h
    dsimp only at h
    split at h
    · cases h
      exact update_self _ _ _
    · cases h

/-- A tag is removed, or an error told. -/
theorem untag_meets :
    Meets (Sighted (.tag t)) (untag faults t) (fun s => s.fs.current t = none) (Told (.tag t)) := by
  apply Meets.andThen (Q := fun s => s.fs.directory = true ∧ Sighted (.tag t) s)
  · apply ask_meets
    · intro s hs hdir
      split at hdir
      next hdir' => exact ⟨hdir', hs⟩
      · cases hdir
    · intro s e hs he _
      split at he
      · cases he
      next hdir =>
        constructor
        · by_contra hcur
          exact hdir (s.fs.housed t hcur)
        · by_contra htags
          exact hdir (hs htags).1
  · intro s hs
    unfold removeTagDirectory
    cases hf : faults.untag t with
    | some parts => apply told_internal
    | none =>
      dsimp only
      split
      · exact update_self _ _ _
      next hnone =>
        rw [not_or, not_not] at hnone
        refine fun _ => ⟨hnone.1, ?_⟩
        by_contra htags
        exact (hs.2 htags).2.elim (fun h => h hnone.1) (fun h => hnone.2 h)

/-- So is its row. -/
theorem dbDeleteTag_meets :
    Meets (fun s => s.fs.current t = none) (dbDeleteTag faults t) (Gone (.tag t))
      (Told (.tag t)) := by
  have hfound : ∀ step, Meets (fun s => s.fs.current t = none)
      (ask faults step fun s => if s.db.tags t = none then some .tagUnknown else none)
      (fun s => s.fs.current t = none) (Told (.tag t)) := by
    intro step
    refine ask_keeps fun s e hs he _ => ?_
    split at he
    next hnone => exact ⟨hs, hnone⟩
    · cases he
  refine (ask_keeps fun s e hs he _ => ?_).andThen ?_
  · split at he
    · cases he
    next hrepo =>
      refine ⟨hs, Option.eq_none_iff_forall_ne_some.2 fun d hd => hrepo ?_⟩
      exact s.db.manifests_repository d (s.db.tags_manifests t d hd)
  apply (hfound _).andThen
  apply ask_meets_any.andThen
  apply ask_meets_any.andThen
  apply (hfound _).andThen
  apply perform_meets
  intro s hs
  exact ⟨hs, update_self _ _ _⟩

def Unlinked (d : Digest) (s : Metadata) : Prop := s.fs.revisions d = false ∧ s.fs.layers d = false

/-- A manifest is unlinked, or an error told. -/
theorem fsDeleteManifest_meets :
    Meets (Sighted (.manifest d)) (fsDeleteManifest cfg faults d) (Unlinked d)
      (Told (.manifest d)) := by
  apply refuse_meets.andThen
  apply Meets.andThen (Q := fun _ => True)
  · apply Meets.check
    · intro s _ _
      trivial
    · intro s e hs he
      rcases statRevision_unknown he with rfl | ⟨rfl, hnot⟩
      · exact told_internal
      intro _
      have hnone : ¬(s.fs.revisions d = true ∨ s.fs.layers d = true ∨
          s.db.manifests d = true ∨ ∃ t, s.fs.current t = some d) := fun h => hnot (hs h)
      simp only [not_or, not_exists, Bool.not_eq_true] at hnone
      obtain ⟨hrev, hlay, hman, hcur⟩ := hnone
      refine ⟨⟨hrev, hlay, hcur⟩, hman, fun t ht => ?_⟩
      exact Bool.eq_false_iff.1 hman (s.db.tags_manifests t d ht)
  apply Meets.andThen (Q := fun s => s.fs.revisions d = false)
  · apply perform_meets
    intro s _
    exact update_self _ _ _
  · apply perform_meets
    intro s hs
    exact ⟨hs, update_self _ _ _⟩

/-- INTERNAL: the invariant of the loop is that every tag of the manifest is still to come. -/
theorem untagManifest_meets :
    Meets (Unlinked d) (untagManifest faults d)
      (fun s => Unlinked d s ∧ ∀ t, s.fs.current t ≠ some d) (Told (.manifest d)) := by
  apply Meets.andThen (Q := Unlinked d)
  · apply Meets.check
    · intro s hs _
      exact hs
    · intro s e _ he
      unfold lookupFails at he
      split at he
      · cases he
        exact told_internal
      split at he <;> cases he
      exact told_internal
  apply Meets.read
  intro tags
  apply Meets.imp
    (P := fun s => Unlinked d s ∧ ∀ t, s.fs.current t = some d → t ∈ tags)
    (Q := fun s => Unlinked d s ∧ ∀ t, s.fs.current t = some d → t ∈ ([] : List TagName))
  · apply Meets.forEach (I := fun rest s =>
      Unlinked d s ∧ ∀ t, s.fs.current t = some d → t ∈ rest)
    intro t rest
    apply Meets.mapError
    intro s hs
    cases hr : untag faults t s with
    | mk s' err =>
    cases err with
    | some e => apply told_internal
    | none =>
    have hshrinks : Shrinks s s' := untag_shrinks.of_eq hr
    obtain ⟨s₁, h₁, h₂⟩ := andThen_ok hr
    have hcur : s'.fs.current t = none := removeTagDirectory_ok h₂
    refine ⟨⟨Bool.eq_false_iff.2 fun h => ?_, Bool.eq_false_iff.2 fun h => ?_⟩, fun t' ht' => ?_⟩
    · exact Bool.eq_false_iff.1 hs.1.1 (hshrinks.revisions d h)
    · exact Bool.eq_false_iff.1 hs.1.2 (hshrinks.layers d h)
    · have hmem := hs.2 t' (hshrinks.current t' d ht')
      rcases List.mem_cons.1 hmem with rfl | hmem
      · rw [hcur] at ht'
        cases ht'
      · exact hmem
  · rintro s ⟨hs, rfl⟩
    refine ⟨hs, fun t ht => ?_⟩
    have hname : t ∈ s.fs.names := s.fs.named t (by rw [ht]; exact Option.some_ne_none d)
    simp [lookup, hname, ht]
  · intro s hs
    exact ⟨hs.1, fun t ht => List.not_mem_nil (hs.2 t ht)⟩

/-- So is its row removed. -/
theorem dbDeleteManifest_meets :
    Meets (fun s => Unlinked d s ∧ ∀ t, s.fs.current t ≠ some d)
      (dbDeleteManifest cfg faults d) (Gone (.manifest d)) (Told (.manifest d)) := by
  have hmissing : ∀ s : Metadata, (Unlinked d s ∧ ∀ t, s.fs.current t ≠ some d) →
      s.db.manifests d = false → Gone (.manifest d) s := by
    intro s hs hman
    refine ⟨⟨hs.1.1, hs.1.2, hs.2⟩, hman, fun t ht => ?_⟩
    exact Bool.eq_false_iff.1 hman (s.db.tags_manifests t d ht)
  apply refuse_meets.andThen
  refine (ask_keeps fun s e _ he => ?_).andThen ?_
  · split at he <;> cases he
    exact told_internal
  refine (ask_keeps fun s e hs he _ => ?_).andThen ?_
  · split at he
    · cases he
    next hman => exact hmissing s hs (Bool.eq_false_iff.2 hman)
  apply ask_meets_any.andThen
  apply Meets.andThen (Q := fun s => Unlinked d s ∧ ∀ t, s.fs.current t ≠ some d)
  · intro s hs
    apply Meets.when (fun _ => ?_) (fun _ _ h => h) s hs
    apply ask_meets_any.andThen
    apply Meets.when (fun _ => ask_meets_any) (fun _ _ h => h)
  refine (ask_keeps fun s e hs he => ?_).andThen ?_
  · unfold deleteManifestFails at he
    split at he
    · split at he <;> cases he
      exact told_referenced
    next hman => exact fun _ => hmissing s hs (Bool.eq_false_iff.2 hman)
  · apply perform_meets
    intro s hs
    exact hmissing { s with db := s.db.deleteManifest d } hs (update_self _ _ _)

/-- **A request from a sighted state is answered with success or with 404 only if the object is
gone**, wherever its steps fail. -/
theorem delete_meets (faults : Faults) (hfs : cfg.writeFSMetadata = true)
    (hdb : cfg.useDatabase = true) : Meets (Sighted o) (delete cfg faults o) (Gone o) (Told o) := by
  have habsurd : ∀ {c : Bool} {P : Prop}, c = true → c = false → P := by
    intro c P h h'
    exact absurd (h.symm.trans h') (by decide)
  cases o with
  | blob d =>
    apply (Meets.when (fun _ => fsDeleteBlob_meets) (fun h => habsurd hfs h)).andThen
    apply (Meets.when (fun _ => dbDeleteBlob_meets) (fun h => habsurd hdb h)).andThen
    apply Meets.check
    · intro s hs _
      exact hs
    · intro s e hs he
      rw [hfs] at he
      cases he
  | tag t =>
    apply refuse_meets.andThen
    apply (Meets.when (fun _ => untag_meets) (fun h => habsurd hfs h)).andThen
    apply Meets.when (fun _ => dbDeleteTag_meets) (fun h => habsurd hdb h)
  | manifest d =>
    apply Meets.andThen (Q := fun s => Unlinked d s ∧ ∀ t, s.fs.current t ≠ some d)
    · apply Meets.when (fun _ => ?_) (fun h => habsurd hfs h)
      apply fsDeleteManifest_meets.andThen untagManifest_meets
    · apply Meets.when (fun _ => dbDeleteManifest_meets) (fun h => habsurd hdb h)

theorem gone_of_settles (hfs : cfg.writeFSMetadata = true) (hdb : cfg.useDatabase = true)
    (hs : Sighted o s) (h : (answer o (delete cfg faults o s).2).settles = true) :
    Gone o (delete cfg faults o s).1 := by
  have hafter := delete_meets faults hfs hdb s hs
  cases hr : delete cfg faults o s with
  | mk s' err =>
    rw [hr] at h hafter
    cases err with
    | none => exact hafter
    | some e => exact hafter h

def image : Digest := ⟨.sha256, 0⟩

/-- An image and a blob under one digest, with a tag, in both stores. -/
def mirrored : Metadata where
  fs :=
    { data := fun d => d = image
      cached := fun _ => false
      layers := fun d => d = image
      revisions := fun d => d = image
      directory := true
      names := [0]
      current := fun t => if t = 0 then some image else none
      index := fun t => t = 0
      named := by
        intro t h
        by_cases ht : t = 0
        · rw [ht]
          exact List.mem_cons_self
        · rw [if_neg ht] at h
          exact absurd rfl h
      housed := fun _ _ => rfl }
  db :=
    { repository := true
      blobs := fun d => d = image
      manifests := fun d => d = image
      isList := fun _ => false
      references := []
      tags := fun t => if t = 0 then some image else none
      blobs_repository := fun _ _ => rfl
      manifests_repository := fun _ _ => rfl
      tags_manifests := by
        intro t d h
        split at h
        · rw [← Option.some.inj h]
          rfl
        · cases h }

def mirrors : Config := ⟨true, false, true, true⟩

def noFaults : Faults := ⟨fun _ => none, fun _ => none⟩

def databaseDown : Faults :=
  ⟨fun step => if step = .findRepository then some false else none, fun _ => none⟩

def retried (o : Object) : Option Session :=
  run (request mirrors o) ⟨mirrored, false⟩ [databaseDown, noFaults]

end ContainerRegistry.Analysis.Deletes
