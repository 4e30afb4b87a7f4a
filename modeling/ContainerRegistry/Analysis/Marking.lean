import ContainerRegistry.Analysis.Repositories

/-!
# Marking and sweeping

The walk of the revision links goes on to marking exactly when its requests are answered (`Listed`),
with the manifests of `Found`, or with none if a listing is masked. A run without error deletes the
links of unwanted manifests and the blobs without a mark.
-/

namespace ContainerRegistry.Analysis.Offline

open Library Model List

variable {S : Storage} {w : Walker} {faults : Faults} {opts : GCOpts} {sched : Schedule}
  {name p : Path} {d : Digest} {turns : List Turn}

/-! ## The walk of the revision links -/

def Found (faults : Faults) (S : Storage) (name : Path) (d : Digest) : Prop :=
  ∃ p es v, Below S.toObjectTree (pathFor (.manifestRevisions name)) p ∧
    ingestLink faults S name p (S.isDir p) = some (es, v) ∧ d ∈ es

/-- The first listing of the revision links fails in a way that reads as a missing path. -/
def Masked (w : Walker) (faults : Faults) (name : Path) : Prop :=
  Walker.masks w (faults (.revisions name)) (pathFor (.manifestRevisions name))

/-- The walk of the revision links is answered, or answered that there are none. -/
def Listed (w : Walker) (faults : Faults) (S : Storage) (name : Path) : Prop :=
  faults (.revisions name) (.list (pathFor (.manifestRevisions name)) 0) = false ∧
    (Walker.Present w S.toObjectTree (pathFor (.manifestRevisions name)) →
      AllClear (Walker.listing w) S.toObjectTree (faults (.revisions name))
        (ingestLink faults S name) (fun _ => true) (pathFor (.manifestRevisions name)))

/-- What one link of a revision can lead to. -/
theorem ingestLink_cases {es v}
    (hp : S.occupied p = true) (h : ingestLink faults S name p (S.isDir p) = some (es, v)) :
    es = [] ∧ v = .proceed ∨
      (∃ e, es = [] ∧ v = .fail e ∧ ∀ q, e ≠ .pathNotFound q) ∨
      (∃ d t, es = [d] ∧ v = .proceed ∧ p.getLast? = some .link ∧ S.read p = some (.link d) ∧
        linkedStat (faults (.conform name p)) S name d = .ok t) := by
  unfold ingestLink at h
  split at h
  · cases h
    exact .inl ⟨rfl, rfl⟩
  next hfile =>
  split at h
  · cases h
    exact .inl ⟨rfl, rfl⟩
  next hlink =>
  split at h
  · cases h
    exact .inl ⟨rfl, rfl⟩
  · next e _ herr =>
    cases h
    refine .inr (.inl ⟨e, rfl, rfl, fun q hq => ?_⟩)
    subst hq
    obtain ⟨c, hc⟩ := ObjectTree.exists_read hp (by simpa using hfile)
    rw [readlink_pathNotFound herr] at hc
    cases hc
  · next d hread =>
    split at h
    · cases h
      exact .inl ⟨rfl, rfl⟩
    · next e _ herr =>
      cases h
      refine .inr (.inl ⟨e, rfl, rfl, fun q hq => ?_⟩)
      subst hq
      exact linkedStat_ne_pathNotFound herr
    · next t hstat =>
      cases h
      exact .inr (.inr ⟨d, t, rfl, rfl, by simpa using hlink, readlink_ok hread, hstat⟩)

theorem ingestLink_guided : Guided S.toObjectTree (ingestLink faults S name) (fun _ => true)
    (pathFor (.manifestRevisions name)) := by
  intro p es v hp h
  refine ⟨fun _ _ => rfl, fun hv => ?_⟩
  subst hv
  rcases ingestLink_cases hp.isBelow.1 h with ⟨_, hv⟩ | ⟨e, _, hv, _⟩ | ⟨d, t, _, hv, _⟩ <;>
    cases hv

theorem Found.revisionLink (h : Found faults S name d) : RevisionLink S name d := by
  obtain ⟨p, es, v, hp, hf, hd⟩ := h
  rcases ingestLink_cases hp.1 hf with ⟨rfl, _⟩ | ⟨e, rfl, _⟩ | ⟨d', t, rfl, _, hlast, hread, _⟩
  · cases hd
  · cases hd
  · obtain rfl := mem_singleton.1 hd
    exact ⟨p, hp, hlast, hread⟩

/-- A revision with a link is found. -/
theorem found_of_revisionLink {t} (hclear : AllClear (Walker.listing w) S.toObjectTree
      (faults (.revisions name)) (ingestLink faults S name) (fun _ => true)
      (pathFor (.manifestRevisions name)))
    (h : RevisionLink S name d) (ht : Resolves S name d t) (hs : Stored S t) :
    Found faults S name d := by
  obtain ⟨p, hp, hlast, hread⟩ := h
  have haccept := (allClear_iff.1 hclear).2 p (visited_all.2 hp)
  have hfile : S.isDir p = false := ObjectTree.isDir_of_read hread
  have heq : ingestLink faults S name p (S.isDir p) = some ([d], .proceed) := by
    have hlink : readlink (faults (.revisions name)) S p = .ok d := by
      by_contra hne
      have herr := (readlink_of_read hread).resolve_left hne
      refine haccept [] (.failed (.read p)) ?_
      simp [ingestLink, hfile, hlast, herr.2]
    have hstat : linkedStat (faults (.conform name p)) S name d = .ok t ∨ ∃ q, _ ∧ _ :=
      linkedStat_of_resolves ht hs
    rcases hstat with h | ⟨q, _, h⟩
    · simp [ingestLink, hfile, hlast, hlink, h]
    · refine absurd ?_ (haccept [] (.failed q))
      simp [ingestLink, hfile, hlast, hlink, h]
  exact ⟨p, [d], .proceed, hp, heq, mem_singleton_self d⟩

section Enumeration

variable {r : Walked Segment Digest Failure}

/-- **A masked listing finds nothing** and is taken for a repository without manifests. -/
theorem enumerateManifests_masked (hm : Masked w faults name)
    (h : enumerateManifests w faults S name turns = some r) :
    r.effects = [] ∧ r.error.all WalkError.onlyPathNotFound = true := by
  obtain ⟨heff, herr⟩ := walkParallel_masked hm h
  exact ⟨heff, by rw [herr]; rfl⟩

theorem first_listing_answered {C κ E ε : Type} [DecidableEq C] {ℓ : Listing C κ}
    {T : ObjectTree C κ} {fails : Request C → Bool} {f : WalkFn C E ε} {enters : List C → Bool}
    {root : List C} (h : AllClear ℓ T fails f enters root) : fails (.list root 0) = false :=
  h.listed _ (mem_entering.2 ⟨0, length_pos_of_ne_nil (ℓ.pages_ne_nil T root), rfl⟩)

/-- **Otherwise the walk finds exactly `Found`** where its requests are answered, and stops the run
elsewhere. -/
theorem enumerateManifests_spec (hm : ¬ Masked w faults name)
    (h : enumerateManifests w faults S name turns = some r) :
    (r.error.all WalkError.onlyPathNotFound = true ↔ Listed w faults S name) ∧
      (Listed w faults S name → ∀ d, d ∈ r.effects ↔ Found faults S name d) := by
  have hnever : ∀ p es q, Below S.toObjectTree (pathFor (.manifestRevisions name)) p →
      ingestLink faults S name p (S.isDir p) ≠ some (es, .fail (.pathNotFound q)) := by
    intro p es q hp hf
    rcases ingestLink_cases hp.1 hf with ⟨_, hv⟩ | ⟨e, _, hv, hne⟩ | ⟨d, t, _, hv, _⟩
    · cases hv
    · cases hv
      exact hne q rfl
    · cases hv
  have hsound : ∀ d, d ∈ r.effects → Found faults S name d := by
    intro d hd
    obtain ⟨p, es, v, hp, hf, hmem⟩ := walkParallel_sound ingestLink_guided h hd
    exact ⟨p, es, v, hp, hf, hmem⟩
  by_cases hpres : Walker.Present w S.toObjectTree (pathFor (.manifestRevisions name))
  · have hok := walkParallel_ok_iff ingestLink_guided h
    constructor
    · constructor
      · intro hall
        cases herr : r.error with
        | none =>
          have hclear := (hok.1 herr).2
          exact ⟨first_listing_answered hclear, fun _ => hclear⟩
        | some e =>
          rw [herr] at hall
          rcases walkParallel_missing ingestLink_guided hnever h herr hall with habs | hmask
          · exact absurd hpres habs
          · exact absurd hmask hm
      · intro hl
        rw [hok.2 ⟨hpres, hl.2 hpres⟩]
        rfl
    · intro hl d
      refine ⟨hsound d, ?_⟩
      rintro ⟨p, es, v, hp, hf, hmem⟩
      obtain ⟨es', v', hf', hes'⟩ := walkParallel_complete ingestLink_guided h
        (hok.2 ⟨hpres, hl.2 hpres⟩) (visited_all.2 hp)
      rw [hf] at hf'
      cases hf'
      exact hes' d hmem
  · constructor
    · cases hfail : faults (.revisions name) (.list (pathFor (.manifestRevisions name)) 0) with
      | false =>
        obtain ⟨e, herr, honly⟩ := walkParallel_absent hpres hfail h
        rw [herr]
        exact ⟨fun _ => ⟨hfail, fun hp => absurd hp hpres⟩, fun _ => honly⟩
      | true =>
        have hw : w ≠ .s3Parallel := fun hw => hm ⟨hw, hfail⟩
        obtain ⟨e, herr, honly⟩ := walkParallel_list_failed hfail hw h
        rw [herr]
        constructor
        · intro hall
          rw [Option.all_some, honly] at hall
          cases hall
        · intro hl
          rw [hl.1] at hfail
          cases hfail
    · intro _ d
      refine ⟨hsound d, ?_⟩
      rintro ⟨p, _, _, hp, _⟩
      exact absurd hp (not_below_of_absent hpres)

end Enumeration

section Manifests

variable {fails : Digest → Request Segment → Bool} {ds : List Digest}
  {ms : List (Digest × Manifest)}

/-- **What is read is served**: one manifest for each digest. -/
theorem getManifests_ok (h : getManifests fails S name ds = .ok ms) :
    (∀ d ∈ ds, ∃ m, (d, m) ∈ ms) ∧ ∀ x ∈ ms, x.1 ∈ ds ∧ Serves S name x.1 x.2 := by
  induction ds generalizing ms with
  | nil =>
    cases h
    exact ⟨nofun, nofun⟩
  | cons d ds ih =>
    rw [getManifests] at h
    split at h
    · cases h
    next m hm =>
    cases hrest : getManifests fails S name ds with
    | error e =>
      rw [hrest] at h
      cases h
    | ok rest =>
      rw [hrest] at h
      cases h
      obtain ⟨hall, hserves⟩ := ih hrest
      constructor
      · intro d' hd'
        rcases mem_cons.1 hd' with rfl | hd'
        · exact ⟨m, mem_cons_self ..⟩
        · obtain ⟨m', hm'⟩ := hall d' hd'
          exact ⟨m', mem_cons_of_mem _ hm'⟩
      · intro x hx
        rcases mem_cons.1 hx with rfl | hx
        · exact ⟨mem_cons_self .., getManifest_ok hm⟩
        · exact ⟨mem_cons_of_mem _ (hserves x hx).1, (hserves x hx).2⟩

/-- **All are read** exactly when each of them can be. -/
theorem exists_getManifests : (∃ ms, getManifests fails S name ds = .ok ms) ↔
    ∀ d ∈ ds, ∃ m, getManifest (fails d) S name d = .ok m := by
  induction ds with
  | nil => exact ⟨nofun, fun _ => ⟨[], rfl⟩⟩
  | cons d ds ih =>
    rw [forall_mem_cons, ← ih]
    constructor
    · rintro ⟨ms, h⟩
      rw [getManifests] at h
      split at h
      · cases h
      next m hm =>
      cases hrest : getManifests fails S name ds with
      | error e =>
        rw [hrest] at h
        cases h
      | ok rest => exact ⟨⟨m, hm⟩, rest, rfl⟩
    · rintro ⟨⟨m, hm⟩, rest, hrest⟩
      refine ⟨(d, m) :: rest, ?_⟩
      rw [getManifests, hm]
      simp only
      rw [hrest]
      rfl

end Manifests

/-! ## The sweep -/

section Sweep

variable {dels : List ManifestDel} {dgsts : List Digest} {c : Content}

theorem read_remove {ps} : (S.remove ps).read p = some c ↔ S.read p = some c ∧ p ∉ ps :=
  ObjectTree.read_deleteFiles

/-- All links of the manifests are removed. -/
theorem read_removeManifests {n} (hn : dels.length ≤ n * maxBatchSize) :
    (removeManifests S n dels).read p = some c ↔ S.read p = some c ∧ ∀ m ∈ dels, p ∉ m.links := by
  induction n generalizing S dels with
  | zero =>
    have hnil : dels = [] := length_eq_zero_iff.1 (by omega)
    subst hnil
    simp [removeManifests]
  | succ n ih =>
    have hrest : (dels.drop maxBatchSize).length ≤ n * maxBatchSize := by
      rw [length_drop]
      rw [Nat.add_mul, Nat.one_mul] at hn
      omega
    rw [removeManifests, ih hrest, read_remove, and_assoc, mem_flatMap]
    refine and_congr_right fun _ => ?_
    -- a manifest of the list is in the first batch or in a later one
    conv_rhs => rw [← take_append_drop maxBatchSize dels]
    rw [forall_mem_append]
    refine and_congr_left fun _ => ?_
    simp

/-- **The sweep deletes what it is told to**: the links of manifests and the files of blobs. -/
theorem read_sweep : (sweep S dels dgsts).read p = some c ↔
    S.read p = some c ∧ (∀ m ∈ dels, p ∉ m.links) ∧ ∀ d ∈ dgsts, p ≠ pathFor (.blobData d) := by
  have hbatches : dels.length ≤ (dels.length + maxBatchSize - 1) / maxBatchSize * maxBatchSize := by
    unfold maxBatchSize
    omega
  unfold sweep removeBlobs
  rw [read_remove, read_removeManifests hbatches, and_assoc]
  simp [eq_comm]

theorem blobData_not_link (m : ManifestDel) : pathFor (.blobData d) ∉ m.links := by
  simp [ManifestDel.links, pathFor, repoPrefix, rootPrefix]

theorem stored_sweep : Stored (sweep S dels dgsts) d ↔ Stored S d ∧ d ∉ dgsts := by
  unfold Stored
  simp only [read_sweep]
  constructor
  · rintro ⟨c, hc, _, hd⟩
    exact ⟨⟨c, hc⟩, fun hmem => hd d hmem rfl⟩
  · rintro ⟨⟨c, hc⟩, hd⟩
    refine ⟨c, hc, fun m _ => blobData_not_link m, fun d' hd' heq => ?_⟩
    exact hd (blobData_injective heq ▸ hd')

end Sweep

/-! ## A run -/

section Run

variable {out : Collected}

section

variable (h : markAndSweep w faults opts sched S = some out)
include h

/-- **A run with an error deletes nothing.** -/
theorem markAndSweep_error (herr : out.error ≠ none) : out.storage = S := by
  obtain ⟨r, _, h⟩ := Option.bind_eq_some_iff.1 h
  split at h
  · cases h
    rfl
  · obtain ⟨b, _, rfl⟩ := Option.map_eq_some_iff.1 h
    split at herr
    · next hb => simp only [hb, if_true]
    · split at herr <;> exact absurd rfl herr

theorem markAndSweep_dryRun (hdry : opts.dryRun = true) : out.storage = S := by
  obtain ⟨r, _, h⟩ := Option.bind_eq_some_iff.1 h
  split at h
  · cases h
    rfl
  · obtain ⟨b, _, rfl⟩ := Option.map_eq_some_iff.1 h
    split <;> rfl

/-- **The parts of a run**: the error is that of one of the outer walks; without one, outside a dry
run, the storage is swept. -/
theorem markAndSweep_ok :
    ∃ r, markRepositories w faults opts sched S = some r ∧
      out.marked = r.effects.filterMap MarkEvent.marked ∧
      (out.error = none → r.error = none) ∧
      (r.error = none → ∃ b, enumerateBlobs w faults sched S out.marked = some b ∧
        (out.error = none ↔ b.error = none) ∧
        (b.error = none → opts.dryRun = false →
          out.storage = sweep S (r.effects.filterMap MarkEvent.manifestDel) b.effects)) := by
  obtain ⟨r, hr, h⟩ := Option.bind_eq_some_iff.1 h
  refine ⟨r, hr, ?_⟩
  split at h
  · next hsome =>
    cases h
    refine ⟨rfl, nofun, fun hn => ?_⟩
    rw [hn] at hsome
    cases hsome
  next hnone =>
  obtain ⟨b, hb, rfl⟩ := Option.map_eq_some_iff.1 h
  have hrn : r.error = none := by simpa using hnone
  split
  · next hbsome =>
    refine ⟨rfl, nofun, fun _ => ⟨b, hb, ?_, ?_⟩⟩
    · constructor
      · intro hn
        cases hn
      · intro hn
        rw [hn] at hbsome
        cases hbsome
    · intro hn
      rw [hn] at hbsome
      cases hbsome
  · next hbnone =>
    have hbn : b.error = none := by simpa using hbnone
    split
    · next hdry =>
      refine ⟨rfl, fun _ => hrn, fun _ => ⟨b, hb, ⟨fun _ => hbn, fun _ => rfl⟩, ?_⟩⟩
      intro _ hd
      rw [hdry] at hd
      cases hd
    · exact ⟨rfl, fun _ => hrn, fun _ => ⟨b, hb, ⟨fun _ => hbn, fun _ => rfl⟩, fun _ _ => rfl⟩⟩

end

theorem exists_enumerateManifests (w : Walker) (faults : Faults) (S : Storage) (name : Path) :
    ∃ turns r, enumerateManifests w faults S name turns = some r := by
  apply exists_walkParallel
  intro p b
  unfold ingestLink
  repeat' split
  all_goals exact ⟨_, rfl⟩

/-- A collection comes to its end. -/
theorem exists_markAndSweep (w : Walker) (faults : Faults) (opts : GCOpts) (S : Storage) :
    ∃ sched out, markAndSweep w faults opts sched S = some out := by
  choose revisions rs hrs using exists_enumerateManifests w faults S
  have hmark : ∀ name, ∃ x, markRepository w faults opts S (revisions name) name = some x := by
    intro name
    unfold markRepository
    rw [hrs name]
    repeat' split
    all_goals exact ⟨_, rfl⟩
  obtain ⟨repositories, r, hr⟩ : ∃ turns r, walkParallel w S.toObjectTree
      (faults .repositories)
      (handleRepository fun name => markRepository w faults opts S (revisions name) name)
      (pathFor .repositoriesRoot) turns = some r := by
    apply exists_walkParallel
    intro p _
    unfold handleRepository
    split
    · obtain ⟨x, hx⟩ := hmark (p.drop (pathFor .repositoriesRoot).length).dropLast
      exact ⟨_, Option.map_eq_some_iff.2 ⟨x, hx, rfl⟩⟩
    · exact ⟨_, rfl⟩
    · exact ⟨_, rfl⟩
  obtain ⟨blobs, b, hb⟩ : ∃ turns b, walkParallel w S.toObjectTree (faults .blobs)
      (ingestBlob (r.effects.filterMap MarkEvent.marked)) (pathFor .blobs) turns = some b := by
    apply exists_walkParallel
    intro p _
    unfold ingestBlob
    repeat' split
    all_goals exact ⟨_, rfl⟩
  have hr' : markRepositories w faults opts ⟨repositories, revisions, blobs⟩ S = some r := hr
  have hb' : enumerateBlobs w faults ⟨repositories, revisions, blobs⟩ S
      (r.effects.filterMap MarkEvent.marked) = some b := hb
  refine ⟨⟨repositories, revisions, blobs⟩, ?_⟩
  unfold markAndSweep
  rw [hr', Option.bind_some, hb']
  split <;> exact ⟨_, rfl⟩

end Run

end ContainerRegistry.Analysis.Offline
