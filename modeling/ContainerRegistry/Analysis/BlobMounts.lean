import ContainerRegistry.Library.Runs
import ContainerRegistry.Model.Mounts

/-!
# Access to mounted blobs

A mount links the digest of the request to itself, where the source repository may link it to the
canonical digest of the data. Links of canonical digests lead to themselves (`canonical_of_reach`).
-/

namespace ContainerRegistry.Analysis.Mounts

open Library Model.Mounts List Function
open Model (Digest Algorithm)

variable {Repo Bytes : Type} (C : Contents Bytes)

variable (s : Store Repo Bytes)

/-- A blob found in the source and reported as mounted is found in the destination, with the same
descriptor and content; one that is not found is not linked. -/
def Preserves (repo : Repo) (m : Mount Repo) (r : Store Repo Bytes × Created Repo) : Prop :=
  (∀ desc source reported, stat C s noFaults m.source m.digest = .ok desc →
    r.2 = .mounted source reported →
    stat C r.1 noFaults repo m.digest = .ok desc ∧ r.1.data desc.digest = s.data desc.digest) ∧
  ∀ e, stat C s noFaults m.source m.digest = .error e → r.1.links repo = s.links repo

/-- The blob is found by the mount itself, or need not be. -/
def Found (f : Faults) (m : Mount Repo) : Prop :=
  m.stat.isSome = true ∨ ∃ desc, stat C s f m.source m.digest = .ok desc

/-- A stat comes out well if no request fails. -/
theorem stat_eq_ok_iff (f : Faults) (repo : Repo) (d : Digest) (desc : Descriptor)
    : stat C s f repo d = .ok desc ↔ (f.readLink = false ∧ f.statData = false)
    ∧ stat C s noFaults repo d = .ok desc := by
  unfold stat
  cases hread : f.readLink with
  | true => simp
  | false =>
    cases hlink : s.links repo d with
    | none => simp [noFaults]
    | some file =>
      cases file with
      | invalid => simp [noFaults]
      | target t => cases hstat : f.statData <;> simp [statData, noFaults, hstat]

variable {s : Store Repo Bytes}

/-- What `Stat` answers is linked and stored. -/
theorem stat_digest {repo d desc} (h : stat C s noFaults repo d = .ok desc) :
    s.links repo d = some (.target desc.digest) ∧ statData C s noFaults desc.digest = .ok desc := by
  unfold stat at h
  rw [if_neg (by simp [noFaults])] at h
  split at h
  · cases h
  · cases h
  next t hlink =>
    have hdigest : desc.digest = t := by
      unfold statData at h
      rw [if_neg (by simp [noFaults])] at h
      split at h
      · cases h
        rfl
      · cases h
    rw [hdigest]
    exact ⟨hlink, h⟩

variable [DecidableEq Repo]

section

variable (s : Store Repo Bytes)

theorem stat_link (repo : Repo) (d : Digest) :
    stat C (s.link repo d d) noFaults repo d = statData C s noFaults d := by
  simp [stat, Store.link, noFaults, statData]

theorem linkBlob_single (f : Faults) (repo : Repo) (d : Digest) :
    linkBlob s f repo d [] =
      if f.putLink d then (s, some .driver) else (s.link repo d d, none) := by
  simp [linkBlob, eraseDups_cons, linkAll]

omit [DecidableEq Repo] in
theorem startUpload_keeps (f : Faults) (repo : Repo) (id : ℕ) :
    (startUpload s f repo id).1.links = s.links ∧ (startUpload s f repo id).1.data = s.data ∧
      ∀ source desc, (startUpload s f repo id).2 ≠ .mounted source desc := by
  unfold startUpload
  split
  · exact ⟨rfl, rfl, nofun⟩
  · refine ⟨rfl, rfl, fun source desc => ?_⟩
    dsimp only
    split <;> nofun

/-- **What `Create` does with a mount option.** It writes the link, or begins an upload. -/
theorem create_mount_cases (f : Faults) (repo : Repo) (m : Mount Repo) (id : ℕ) :
    (Found C s f m ∧ f.putLink m.digest = false ∧ ∃ desc, create C s f repo (some m) id =
      (s.link repo m.digest m.digest, .mounted m.source desc)) ∨
    (¬ (Found C s f m ∧ f.putLink m.digest = false) ∧
      create C s f repo (some m) id = startUpload s f repo id) := by
  -- once the blob is found, the outcome is that of the request that writes the link
  have hlink : ∀ found, (m.stat = some found ∨
      (m.stat = none ∧ stat C s f m.source m.digest = .ok found)) →
      create C s f repo (some m) id = if f.putLink m.digest then startUpload s f repo id
        else (s.link repo m.digest m.digest, .mounted m.source
          ⟨"application/octet-stream", found.size, m.digest⟩) := by
    intro found hfound
    rcases hfound with hstat | ⟨hnone, hstat⟩
    · simp only [create, mount, hstat, linkBlob_single]
      cases f.putLink m.digest <;> rfl
    · simp only [create, mount, hnone, hstat, linkBlob_single]
      cases f.putLink m.digest <;> rfl
  by_cases hfound : Found C s f m
  · obtain ⟨found, hcase⟩ : ∃ found, m.stat = some found ∨
        (m.stat = none ∧ stat C s f m.source m.digest = .ok found) := by
      cases hm : m.stat with
      | some found => exact ⟨found, .inl rfl⟩
      | none =>
        obtain ⟨found, hstat⟩ := hfound.resolve_left (by simp [hm])
        exact ⟨found, .inr ⟨rfl, hstat⟩⟩
    rw [hlink found hcase]
    cases hput : f.putLink m.digest with
    | true => exact .inr ⟨by simp, rfl⟩
    | false => exact .inl ⟨hfound, rfl, _, rfl⟩
  · refine .inr ⟨fun h => hfound h.1, ?_⟩
    obtain ⟨hnone, hstat⟩ := not_or.1 hfound
    rw [Option.not_isSome_iff_eq_none] at hnone
    cases hs : stat C s f m.source m.digest with
    | ok desc => exact absurd ⟨desc, hs⟩ hstat
    | error e => simp only [create, mount, hnone, hs]

end

/-- A mount with this outcome preserves access: a digest found in the source is canonical, and one
that is not found is not linked without a look. -/
structure Faithful (s : Store Repo Bytes) (f : Faults) (repo : Repo) (m : Mount Repo) : Prop where
  canonical : ∀ desc, stat C s noFaults m.source m.digest = .ok desc → f.putLink m.digest = false →
    (m.stat.isSome = true ∨ (f.readLink = false ∧ f.statData = false)) → desc.digest = m.digest
  checked : ∀ e, stat C s noFaults m.source m.digest = .error e → f.putLink m.digest = false →
    m.stat.isSome = true → s.links repo m.digest = some (.target m.digest)

/-- INTERNAL: a faithful mount preserves the blob. -/
theorem Faithful.preserves {f repo m} (h : Faithful C s f repo m) (id : ℕ) :
    Preserves C s repo m (create C s f repo (some m) id) := by
  rcases create_mount_cases C s f repo m id with ⟨hfound, hput, desc', hcreate⟩ | ⟨-, hcreate⟩
  · rw [hcreate]
    refine ⟨fun desc _ _ hstat _ => ⟨?_, rfl⟩, fun e hstat => ?_⟩
    · have hdigest : desc.digest = m.digest := by
        refine h.canonical desc hstat hput (hfound.imp_right ?_)
        rintro ⟨desc', hstat'⟩
        exact ((stat_eq_ok_iff C s f m.source m.digest desc').1 hstat').1
      rw [stat_link, ← hdigest]
      exact (stat_digest C hstat).2
    · have hsome : m.stat.isSome = true := by
        refine hfound.resolve_right ?_
        rintro ⟨desc', hstat'⟩
        rw [((stat_eq_ok_iff C s f m.source m.digest desc').1 hstat').2] at hstat
        cases hstat
      have hlink := h.checked e hstat hput hsome
      simp only [Store.link, update_self]
      exact update_eq_self_iff.2 hlink.symm
  · rw [hcreate]
    obtain ⟨hlinks, -, hnot⟩ := startUpload_keeps s f repo id
    exact ⟨fun _ source desc _ h => absurd h (hnot source desc), fun _ _ => congrFun hlinks repo⟩

/-- **When a mount preserves access.** -/
theorem mount_preserves_iff (s : Store Repo Bytes) (f : Faults) (repo : Repo) (m : Mount Repo)
    (id : ℕ) : Preserves C s repo m (create C s f repo (some m) id) ↔ Faithful C s f repo m := by
  refine ⟨fun h => ?_, fun h => h.preserves C id⟩
  rcases create_mount_cases C s f repo m id with ⟨hfound, hput, desc', hcreate⟩ | ⟨hnot, -⟩
  · rw [hcreate] at h
    refine ⟨fun desc hstat _ _ => ?_, fun e hstat _ _ => ?_⟩
    · obtain ⟨hdest, -⟩ := h.1 desc m.source desc' hstat rfl
      rw [stat_link] at hdest
      unfold statData at hdest
      split at hdest
      · cases hdest
      split at hdest
      · cases hdest
        rfl
      · cases hdest
    · have hlinks := congrFun (h.2 e hstat) m.digest
      simpa [Store.link] using hlinks.symm
  · refine ⟨fun desc hstat hput hlook => absurd ⟨?_, hput⟩ hnot, fun e _ hput hsome =>
      absurd ⟨.inl hsome, hput⟩ hnot⟩
    refine hlook.imp_right fun hquiet => ⟨desc, ?_⟩
    exact (stat_eq_ok_iff C s f m.source m.digest desc).2 ⟨hquiet, hstat⟩

/-! ## Canonical digests -/

def Canonical (s : Store Repo Bytes) : Prop :=
  ∀ repo d file, d.algorithm = .sha256 → s.links repo d = some file → file = .target d

/-- A link to its own digest is canonical. -/
theorem Canonical.update (h : Canonical s) (repo : Repo) {d link}
    (hlink : ∀ file ∈ link, d.algorithm = .sha256 → file = .target d) :
    Canonical { s with links := update s.links repo (update (s.links repo) d link) } := by
  intro repo' d' file hd' hfile
  by_cases hrepo : repo' = repo
  · by_cases hd : d' = d
    · simp only [hrepo, hd, update_self] at hfile hd' ⊢
      exact hlink file hfile hd'
    · simp only [hrepo, update_self, update_of_ne hd] at hfile
      exact h repo d' file hd' hfile
  · simp only [update_of_ne hrepo] at hfile
    exact h repo' d' file hd' hfile

theorem Canonical.link (h : Canonical s) (repo : Repo) {d target}
    (htarget : d.algorithm = .sha256 → target = d) : Canonical (s.link repo d target) :=
  h.update repo fun _ hfile hd => Option.some.inj hfile ▸ congrArg LinkFile.target (htarget hd)

theorem Canonical.linkAll (h : Canonical s) (f : Faults) (repo : Repo) {canonical ds}
    (hds : ∀ d ∈ ds, d.algorithm = .sha256 → canonical = d) :
    Canonical (linkAll f repo canonical ds s).1 := by
  induction ds generalizing s with
  | nil => exact h
  | cons d ds ih =>
    unfold ContainerRegistry.Model.Mounts.linkAll
    split
    · exact h
    · exact ih (h.link repo (hds d mem_cons_self)) fun d' hd' => hds d' (mem_cons_of_mem _ hd')

/-- Links stay canonical in a mount, -/
theorem Canonical.create (h : Canonical s) (f : Faults) (repo : Repo) (opts : Option (Mount Repo))
    (id : ℕ) : Canonical (create C s f repo opts id).1 := by
  have hstart : Canonical (startUpload s f repo id).1 := by
    intro repo' d file hd hfile
    rw [(startUpload_keeps s f repo id).1] at hfile
    exact h repo' d file hd hfile
  cases opts with
  | none => exact hstart
  | some m =>
    rcases create_mount_cases C s f repo m id with ⟨-, -, desc, hcreate⟩ | ⟨-, hcreate⟩
    · rw [hcreate]
      exact h.link repo fun _ => rfl
    · rw [hcreate]
      exact hstart

/-- and in an upload. -/
theorem Canonical.commit (h : Canonical s) (f : Faults) (repo : Repo) (content : Bytes)
    (d : Digest) : Canonical (commit C s f repo content d).1 := by
  unfold ContainerRegistry.Model.Mounts.commit
  split
  · exact h
  next hverified =>
    split
    · exact h
    dsimp only
    unfold linkBlob
    refine Canonical.linkAll (by exact h) f repo fun d' hd' halg => ?_
    rw [mem_eraseDups, mem_cons, mem_singleton] at hd'
    rcases hd' with rfl | rfl
    · rfl
    · rw [halg] at hverified
      exact not_not.1 hverified

/-- **In every run the links of canonical digests lead to themselves.** -/
theorem canonical_of_reach (h : Reach (step C) (fun _ _ => True) Store.empty s) : Canonical s := by
  refine h.invariant (P := Canonical) (by intro _ _ _ _ hfile; cases hfile) ?_
  intro s a s' _ hs _ hstep
  cases a with
  | create f repo opts id =>
    cases hstep
    exact hs.create C f repo opts id
  | commit f repo content d =>
    cases hstep
    exact hs.commit C f repo content d
  | clear repo d =>
    cases hstep
    exact hs.update repo fun _ hfile => by cases hfile
  | remove d =>
    cases hstep
    exact hs

/-- **Mounting by the canonical digest preserves access**, from every reachable state. -/
theorem canonical_mount_preserves (hs : Reach (step C) (fun _ _ => True) Store.empty s) (f : Faults)
    (repo : Repo) (m : Mount Repo) (id : ℕ) (hd : m.digest.algorithm = .sha256)
    (hstat : m.stat = none) : Preserves C s repo m (create C s f repo (some m) id) := by
  refine Faithful.preserves C ⟨fun desc hfound _ _ => ?_, fun _ _ _ hsome => ?_⟩ id
  · have hlink := (stat_digest C hfound).1
    have hself := canonical_of_reach C hs m.source m.digest _ hd hlink
    exact LinkFile.target.inj hself
  · rw [hstat] at hsome
    cases hsome

/-! ## An alias -/

def numbers : Contents ℕ where
  size := id
  digest := Digest.mk
  digest_algorithm := fun _ _ => rfl

def uploaded : Store Bool ℕ := (commit numbers Store.empty noFaults false 7 ⟨.sha512, 7⟩).1

def mountedByAlias : Store Bool ℕ × Created Bool :=
  create numbers uploaded noFaults true (some ⟨false, ⟨.sha512, 7⟩, none⟩) 0

/-- By its canonical digest the blob can be mounted. -/
theorem mounted_by_canonical : Preserves numbers uploaded true ⟨false, ⟨.sha256, 7⟩, none⟩
    (create numbers uploaded noFaults true (some ⟨false, ⟨.sha256, 7⟩, none⟩) 0) :=
  canonical_mount_preserves numbers
    (.next (a := .commit noFaults false 7 ⟨.sha512, 7⟩) .init trivial rfl) noFaults true _ 0 rfl rfl

/-- The blob is found in the source and reported as mounted, and is unknown in the destination. -/
theorem alias_mount_loses_access :
    stat numbers uploaded noFaults false ⟨.sha512, 7⟩ =
        .ok ⟨"application/octet-stream", 7, ⟨.sha256, 7⟩⟩ ∧
      mountedByAlias.2 = .mounted false ⟨"application/octet-stream", 7, ⟨.sha512, 7⟩⟩ ∧
      stat numbers mountedByAlias.1 noFaults true ⟨.sha512, 7⟩ = .error .blobUnknown :=
  ⟨rfl, rfl, rfl⟩

end ContainerRegistry.Analysis.Mounts
