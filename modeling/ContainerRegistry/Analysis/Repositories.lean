import ContainerRegistry.Analysis.Walks
import ContainerRegistry.Model.MarkAndSweep

/-!
# What the collector reads

The services over the storage, in terms of the files: `Resolves` says which blob a digest stands for
in a repository, `Serves` which manifest.
-/

namespace ContainerRegistry.Analysis.Offline

open Library Model List

/-! ## Links, blobs and manifests -/

def Stored (S : Storage) (d : Digest) : Prop := ∃ c, S.read (pathFor (.blobData d)) = some c

/-- The repository resolves `d` to the blob `t`: by its revision link or, without one, by its layer
link. -/
def Resolves (S : Storage) (name : Path) (d t : Digest) : Prop :=
  S.read (pathFor (.manifestRevisionLink name d)) = some (.link t) ∨
    S.read (pathFor (.manifestRevisionLink name d)) = none ∧
      S.read (pathFor (.layerLink name d)) = some (.link t)

/-- The repository serves the manifest `m` under the digest `d`. -/
def Serves (S : Storage) (name : Path) (d : Digest) (m : Manifest) : Prop :=
  ∃ t, Resolves S name d t ∧ S.read (pathFor (.blobData t)) = some (.manifest m)

/-- A revision link of the repository names `d`. -/
def RevisionLink (S : Storage) (name : Path) (d : Digest) : Prop :=
  ∃ p, Below S.toObjectTree (pathFor (.manifestRevisions name)) p ∧
    p.getLast? = some .link ∧ S.read p = some (.link d)

variable {S : Storage} {fails : Request Segment → Bool} {name p : Path} {d t : Digest}
  {m : Manifest}

/-- A digest resolves once. -/
theorem Resolves.unique {t'} (h : Resolves S name d t) (h' : Resolves S name d t') : t = t' := by
  rcases h with h | ⟨hn, h⟩ <;> rcases h' with h' | ⟨hn', h'⟩
  · rw [h] at h'
    cases h'
    rfl
  · rw [h] at hn'
    cases hn'
  · rw [hn] at h'
    cases h'
  · rw [h] at h'
    cases h'
    rfl

theorem Serves.unique {m'} (h : Serves S name d m) (h' : Serves S name d m') : m = m' := by
  obtain ⟨t, ht, hm⟩ := h
  obtain ⟨t', ht', hm'⟩ := h'
  rw [ht.unique ht', hm'] at hm
  cases hm
  rfl

/-- A link that is read is there. -/
theorem readlink_ok (h : readlink fails S p = .ok d) : S.read p = some (.link d) := by
  unfold readlink at h
  split at h
  · cases h
  split at h
  · cases h
  · next hr =>
    cases h
    exact hr
  · cases h
  · cases h
  · cases h

/-- What `readlink` does not find is not there. -/
theorem readlink_pathNotFound {q : Path} (h : readlink fails S p = .error (.pathNotFound q)) :
    S.read p = none := by
  unfold readlink at h
  split at h
  · cases h
  split at h
  · next hr => exact hr
  · cases h
  · cases h
  · cases h
  · cases h

theorem readlink_of_read (h : S.read p = some (.link d)) :
    readlink fails S p = .ok d ∨ fails (.read p) = true ∧
      readlink fails S p = .error (.failed (.read p)) := by
  unfold readlink
  cases hf : fails (.read p) with
  | true => exact .inr ⟨rfl, by simp⟩
  | false => exact .inl (by simp [h])

/-- A blob that is found is linked and stored. -/
theorem linkedStat_ok (h : linkedStat fails S name d = .ok t) :
    Resolves S name d t ∧ Stored S t := by
  have hstat : ∀ {t'}, blobStat fails S t' = .ok t → t' = t ∧ Stored S t := by
    intro t' h'
    unfold blobStat at h'
    split at h'
    · cases h'
    · split at h'
      · next hs =>
        cases h'
        exact ⟨rfl, Option.isSome_iff_exists.1 hs⟩
      · cases h'
  unfold linkedStat at h
  split at h
  · next target hres =>
    obtain ⟨rfl, hs⟩ := hstat h
    refine ⟨?_, hs⟩
    rw [resolveLink] at hres
    split at hres
    · next hlink =>
      cases hres
      exact .inl (readlink_ok hlink)
    · next hnone =>
      rw [resolveLink] at hres
      split at hres
      · next hlink =>
        cases hres
        exact .inr ⟨readlink_pathNotFound hnone, readlink_ok hlink⟩
      · cases hres
      · next hne =>
        cases hres
    · cases hres
  · cases h

/-- It is found unless a request fails. -/
theorem linkedStat_of_resolves (h : Resolves S name d t) (hs : Stored S t) :
    linkedStat fails S name d = .ok t ∨
      ∃ q, fails q = true ∧ linkedStat fails S name d = .error (.failed q) := by
  have hstat : blobStat fails S t = .ok t ∨
      ∃ q, fails q = true ∧ blobStat fails S t = .error (.failed q) := by
    unfold blobStat
    cases hf : fails (.stat (pathFor (.blobData t))) with
    | true => exact .inr ⟨_, hf, by simp⟩
    | false => exact .inl (by simp [Option.isSome_iff_exists.2 hs])
  have hread : ∀ {p t}, S.read p = some (.link t) → readlink fails S p = .ok t ∨
      fails (.read p) = true ∧ readlink fails S p = .error (.failed (.read p)) :=
    fun h => readlink_of_read h
  have hresolve : resolveLink fails S
      [pathFor (.manifestRevisionLink name d), pathFor (.layerLink name d)] = .ok t ∨
      ∃ q, fails q = true ∧ resolveLink fails S
        [pathFor (.manifestRevisionLink name d), pathFor (.layerLink name d)] =
          .error (.failed q) := by
    rcases h with h | ⟨hnone, h⟩
    · rcases hread h with hr | ⟨hf, hr⟩
      · exact .inl (by rw [resolveLink, hr])
      · exact .inr ⟨_, hf, by rw [resolveLink, hr]⟩
    cases hf : fails (.read (pathFor (.manifestRevisionLink name d))) with
    | true => exact .inr ⟨_, hf, by rw [resolveLink]; simp [readlink, hf]⟩
    | false =>
      have hmiss : readlink fails S (pathFor (.manifestRevisionLink name d)) =
          .error (.pathNotFound (pathFor (.manifestRevisionLink name d))) := by
        simp [readlink, hf, hnone]
      rcases hread h with hr | ⟨hf', hr⟩
      · exact .inl (by rw [resolveLink, hmiss]; simp only; rw [resolveLink, hr])
      · exact .inr ⟨_, hf', by rw [resolveLink, hmiss]; simp only; rw [resolveLink, hr]⟩
  unfold linkedStat
  rcases hresolve with hr | ⟨q, hq, hr⟩
  · rw [hr]
    exact hstat
  · exact .inr ⟨q, hq, by rw [hr]⟩

/-- An unknown blob is no missing path. -/
theorem linkedStat_ne_pathNotFound {q : Path} :
    linkedStat fails S name d ≠ .error (.pathNotFound q) := by
  have hres : ∀ ps, resolveLink fails S ps ≠ .error (.pathNotFound q) := by
    intro ps
    induction ps with
    | nil => simp [resolveLink]
    | cons p ps ih =>
      rw [resolveLink]
      split
      · simp
      · exact ih
      · next e hne h =>
        intro heq
        cases heq
        exact hne _ rfl
  unfold linkedStat
  split
  · unfold blobStat
    split
    · simp
    · split <;> simp
  · next e h =>
    intro heq
    cases heq
    exact hres _ h

/-- A manifest that is got is served. -/
theorem getManifest_ok (h : getManifest fails S name d = .ok m) : Serves S name d m := by
  unfold getManifest at h
  split at h
  · cases h
  · cases h
  · next t ht =>
    split at h
    · cases h
    split at h
    · cases h
    · next hr =>
      cases h
      exact ⟨t, (linkedStat_ok ht).1, hr⟩
    · cases h
    · cases h
    · cases h

/-- It is got unless a request fails. -/
theorem getManifest_of_serves (h : Serves S name d m) :
    getManifest fails S name d = .ok m ∨
      ∃ q, fails q = true ∧ getManifest fails S name d = .error (.failed q) := by
  obtain ⟨t, ht, hm⟩ := h
  have hstat : linkedStat fails S name d = .ok t ∨
      ∃ q, fails q = true ∧ linkedStat fails S name d = .error (.failed q) :=
    linkedStat_of_resolves ht ⟨_, hm⟩
  unfold getManifest
  rcases hstat with hs | ⟨q, hq, hs⟩
  · rw [hs]
    cases hf : fails (.read (pathFor (.blobData t))) with
    | true => exact .inr ⟨_, hf, by simp [hf]⟩
    | false => exact .inl (by simp [hf, hm])
  · exact .inr ⟨q, hq, by rw [hs]⟩

/-! ## The walk of the repositories root -/

def entersRepository (p : Path) : Bool := !p.getLast?.any Segment.special

def HasLayers (S : Storage) (name : Path) : Prop := S.occupied (pathFor (.layers name)) = true

/-- INTERNAL: a path in the directory of a repository splits at its first component with an
underscore. -/
theorem split_at_special {n r : Path} {u : Segment} (hn : ∀ c ∈ n, c.special = false)
    (hu : u.special = true) :
    (n ++ u :: r).takeWhile (fun c => !c.special) = n ∧
      (n ++ u :: r).dropWhile (fun c => !c.special) = u :: r := by
  induction n with
  | nil => simp [hu]
  | cons c n ih =>
    have hc := hn c mem_cons_self
    obtain ⟨htake, hdrop⟩ := ih fun x hx => hn x (mem_cons_of_mem _ hx)
    simp [hc, htake, hdrop]

theorem not_special_of_valid (h : validName name = true) : ∀ c ∈ name, c.special = false := by
  unfold validName at h
  rw [Bool.and_eq_true, all_eq_true] at h
  intro c hc
  simpa using h.2 c hc

/-- Paths on the way to a repository. -/
theorem visited_repository (h : Visited S.toObjectTree entersRepository
    (pathFor .repositoriesRoot) p) :
    ∃ n c, p = pathFor .repositoriesRoot ++ (n ++ [c]) ∧ ∀ x ∈ n, x.special = false := by
  induction h with
  | child _ => exact ⟨[], _, rfl, nofun⟩
  | @deeper q c' _ henter _ ih =>
    obtain ⟨n, c, rfl, hn⟩ := ih
    have hc : c.special = false := by
      rw [← append_assoc] at henter
      simpa [entersRepository] using henter
    refine ⟨n ++ [c], c', by simp, fun x hx => ?_⟩
    rcases mem_append.1 hx with hx | hx
    · exact hn x hx
    · rw [mem_singleton.1 hx]
      exact hc

/-- INTERNAL: a directory with an underscore belongs to a repository with a valid name, and is no
file. -/
theorem laid_special {n : Path} {u : Segment} (hn : ∀ x ∈ n, x.special = false)
    (hu : u.special = true) (h : S.occupied (pathFor .repositoriesRoot ++ (n ++ [u])) = true) :
    validName n = true ∧ S.isDir (pathFor .repositoriesRoot ++ (n ++ [u])) = true := by
  obtain ⟨r, o, hmem⟩ := ObjectTree.occupied_iff.1 h
  have hlaid := S.repositories_laid _ hmem (by rw [append_assoc]; exact prefix_append _ _)
  rw [append_assoc, drop_left, append_assoc, singleton_append] at hlaid
  obtain ⟨htake, hdrop⟩ := split_at_special (r := r) hn hu
  unfold laidOut at hlaid
  rw [htake, hdrop] at hlaid
  cases r with
  | nil =>
    simp only [Bool.and_eq_true, decide_eq_true_eq] at hlaid
    refine ⟨hlaid.2, ?_⟩
    by_contra hfile
    obtain ⟨a, ha⟩ := ObjectTree.exists_read h (by simpa using hfile)
    have hsame := S.leaf _ (ObjectTree.read_eq_some.1 ha) _ hmem (by simp) (by simp)
    simp [hlaid.1] at hsame
  | cons c r =>
    refine ⟨hlaid, ObjectTree.isDir_of_below (c := c) (q := r) ?_⟩
    exact ObjectTree.occupied_iff.2 ⟨[], o, by simpa using hmem⟩

theorem handleRepository_append {fn : Path → Option (List MarkEvent × Option StoreError)}
    {n : Path} {c : Segment} {b : Bool} :
    handleRepository fn (pathFor .repositoriesRoot ++ (n ++ [c])) b =
      if c = .layers then
        (fn n).map fun r => (r.1, match r.2 with | some e => .fail e | none => .skip)
      else some ([], if c.special then .skip else .proceed) := by
  unfold handleRepository
  rw [drop_left, List.getLast?_append_of_ne_nil _ (by simp), dropLast_concat]
  cases c with
  | layers => rfl
  | _ => simp [Segment.special]

/-- The walk keeps to them. -/
theorem handleRepository_guided (fn : Path → Option (List MarkEvent × Option StoreError)) :
    Guided S.toObjectTree (handleRepository fn) entersRepository (pathFor .repositoriesRoot) := by
  intro p es v hp hf
  obtain ⟨n, c, rfl, hn⟩ := visited_repository hp
  have hlast : entersRepository (pathFor .repositoriesRoot ++ (n ++ [c])) = !c.special := by
    rw [← append_assoc]
    simp [entersRepository]
  have hdir : c.special = true →
      S.isDir (pathFor .repositoriesRoot ++ (n ++ [c])) = true :=
    fun hc => (laid_special hn hc hp.isBelow.1).2
  rw [hlast]
  rw [handleRepository_append] at hf
  split at hf
  · next hc =>
    subst hc
    obtain ⟨r, _, hr⟩ := Option.map_eq_some_iff.1 hf
    cases hr
    refine ⟨fun h => ?_, fun _ => ⟨hdir rfl, rfl⟩⟩
    cases hr2 : r.2 with
    | none | some e => simp [hr2] at h
  · cases hf
    cases hc : c.special with
    | true => exact ⟨fun h => (by simp at h), fun _ => ⟨hdir hc, rfl⟩⟩
    | false => exact ⟨fun _ _ => rfl, fun h => (by simp at h)⟩

theorem layers_path : pathFor (.layers name) =
    pathFor .repositoriesRoot ++ (name ++ [.layers]) := by
  simp [pathFor, repoPrefix]

/-- A repository with layers is visited. -/
theorem visited_layers (hname : validName name = true) (h : HasLayers S name) :
    Visited S.toObjectTree entersRepository (pathFor .repositoriesRoot)
      (pathFor (.layers name)) := by
  have hplain : ∀ x ∈ name, x.special = false := by
    unfold validName at hname
    simp only [Bool.and_eq_true, all_eq_true, Bool.not_eq_true'] at hname
    exact hname.2
  rw [layers_path]
  refine visited_of_below ⟨layers_path ▸ h, ?_⟩ fun q c r hq hbelow => ?_
  · cases name with
    | nil => exact ⟨.layers, [], rfl⟩
    | cons x n => exact ⟨x, n ++ [.layers], rfl⟩
  · obtain ⟨_, c', r', rfl⟩ := hbelow
    rw [append_assoc, append_cancel_left_eq] at hq
    -- a directory on the way is named by components of the repository's name
    have hmem : ∀ x ∈ c' :: r', x ∈ name := by
      have hpre : c' :: r' <+: name := by
        obtain ⟨r₀, c₀, hr₀⟩ : ∃ r₀ c₀, c :: r = r₀ ++ [c₀] :=
          ⟨(c :: r).dropLast, (c :: r).getLast (by simp), (dropLast_append_getLast (by simp)).symm⟩
        rw [hr₀, ← append_assoc] at hq
        exact ⟨r₀, (append_inj_left' hq rfl).symm⟩
      exact fun x hx => hpre.subset hx
    unfold entersRepository
    rw [List.getLast?_append_of_ne_nil _ (by simp),
      List.getLast?_eq_some_getLast (by simp), Option.any_some]
    simp [hplain _ (hmem _ (getLast_mem (by simp)))]

section Repositories

variable {w : Walker} {faults : Faults} {opts : GCOpts} {sched : Schedule}
  {r : Walked Segment MarkEvent Failure}

section

variable (h : markRepositories w faults opts sched S = some r)
include h

/-- **The outer walk returns no error** exactly when its requests are answered and marking fails in
no repository with `_layers`. -/
theorem repositories_ok_iff :
    r.error = none ↔
      Walker.Present w S.toObjectTree (pathFor .repositoriesRoot) ∧
      Answered (Walker.listing w) S.toObjectTree (faults .repositories) entersRepository
        (pathFor .repositoriesRoot) ∧
      ∀ name, validName name = true → HasLayers S name → ∀ evs e,
        markRepository w faults opts S (sched.revisions name) name ≠ some (evs, some e) := by
  rw [walkParallel_ok_iff (handleRepository_guided _) h, allClear_iff]
  refine and_congr_right fun _ => and_congr_right fun _ => ?_
  constructor
  · intro haccept name hname hlayers evs e hmark
    refine haccept _ (visited_layers hname hlayers) evs e ?_
    rw [layers_path, handleRepository_append, if_pos rfl, hmark]
    rfl
  · intro hmark p hp es e hf
    obtain ⟨n, c, rfl, hn⟩ := visited_repository hp
    rw [handleRepository_append] at hf
    split at hf
    · next hc =>
      subst hc
      obtain ⟨⟨evs, err⟩, hevs, hr⟩ := Option.map_eq_some_iff.1 hf
      cases err with
      | none => cases hr
      | some e' =>
        have hlayers : HasLayers S n := by
          unfold HasLayers
          rw [layers_path]
          exact hp.isBelow.1
        exact hmark n (laid_special hn rfl hp.isBelow.1).1 hlayers evs e' hevs
    · split at hf <;> cases hf

/-- A run without an error has marked each of them without one. -/
theorem repositories_marked (hok : r.error = none) (hname : validName name = true)
    (hlayers : HasLayers S name) {evs err}
    (hevs : markRepository w faults opts S (sched.revisions name) name = some (evs, err)) :
    err = none := by
  cases err with
  | none => rfl
  | some e => exact absurd hevs (((repositories_ok_iff h).1 hok).2.2 name hname hlayers evs e)

/-- **What a run without an error has marked**: all that marking each repository with a
`_layers` directory adds. -/
theorem repositories_complete
    (hok : r.error = none) (hname : validName name = true) (hlayers : HasLayers S name) :
    ∃ evs, markRepository w faults opts S (sched.revisions name) name = some (evs, none) ∧
      ∀ ev ∈ evs, ev ∈ r.effects := by
  obtain ⟨es, v, hf, hes⟩ :=
    walkParallel_complete (handleRepository_guided _) h hok (visited_layers hname hlayers)
  rw [layers_path, handleRepository_append, if_pos rfl] at hf
  obtain ⟨⟨evs, err⟩, hevs, hr⟩ := Option.map_eq_some_iff.1 hf
  obtain rfl := repositories_marked h hok hname hlayers hevs
  cases hr
  exact ⟨_, hevs, hes⟩

/-- **Marks come from repositories with a `_layers` directory.** -/
theorem repositories_sound (hok : r.error = none) {ev} (hev : ev ∈ r.effects) :
    ∃ name evs, validName name = true ∧ HasLayers S name ∧
      markRepository w faults opts S (sched.revisions name) name = some (evs, none) ∧
      ev ∈ evs := by
  obtain ⟨p, es, v, hp, hf, hmem⟩ := walkParallel_sound (handleRepository_guided _) h hev
  obtain ⟨hocc, c, rest, rfl⟩ := hp
  obtain ⟨n, u, hnu⟩ : ∃ n u, c :: rest = n ++ [u] :=
    ⟨(c :: rest).dropLast, (c :: rest).getLast (by simp), (dropLast_append_getLast (by simp)).symm⟩
  rw [hnu] at hf hocc
  rw [handleRepository_append] at hf
  split at hf
  · next hu =>
    subst hu
    obtain ⟨⟨evs, err⟩, hevs, hr⟩ := Option.map_eq_some_iff.1 hf
    cases hr
    have hname : validName n = true := by
      by_contra hinvalid
      unfold markRepository at hevs
      rw [if_neg hinvalid] at hevs
      cases hevs
      cases hmem
    have hlayers : HasLayers S n := by
      unfold HasLayers
      rw [layers_path]
      exact hocc
    obtain rfl := repositories_marked h hok hname hlayers hevs
    exact ⟨n, _, hname, hlayers, hevs, hmem⟩
  · cases hf
    cases hmem

end

end Repositories

/-! ## The walk of the blob store -/

theorem digestFromPath_blobData : digestFromPath (pathFor (.blobData d)) = some d := by
  simp [pathFor, digestPathComponents, digestFromPath, rootPrefix]

theorem blobData_injective {d'} (h : pathFor (.blobData d) = pathFor (.blobData d')) : d = d' := by
  have hd := congrArg digestFromPath h
  rw [digestFromPath_blobData, digestFromPath_blobData] at hd
  exact Option.some.inj hd

theorem visited_all {C κ : Type} [DecidableEq C] {T : ObjectTree C κ} {root p : List C} :
    Visited T (fun _ => true) root p ↔ Below T root p :=
  ⟨Visited.isBelow, fun h => visited_of_below h fun _ _ _ _ _ => rfl⟩

theorem guided_all {C κ E ε : Type} [DecidableEq C] {T : ObjectTree C κ} {f : WalkFn C E ε}
    {root : List C} (hf : ∀ p b es, f p b ≠ some (es, .skip)) :
    Guided T f (fun _ => true) root := by
  intro p es v _ h
  refine ⟨fun _ _ => rfl, fun hv => ?_⟩
  subst hv
  exact absurd h (hf p _ es)

section Blobs

variable {w : Walker} {faults : Faults} {sched : Schedule} {marked : List Digest}
  {r : Walked Segment Digest Failure}

theorem ingestBlob_guided : Guided S.toObjectTree (ingestBlob marked) (fun _ => true)
    (pathFor .blobs) := by
  refine guided_all fun p b es h => ?_
  unfold ingestBlob at h
  split at h
  · cases h
  · split at h
    · cases h
    · split at h <;> cases h

theorem ingestBlob_file (hp : Below S.toObjectTree (pathFor .blobs) p)
    (hfile : S.isDir p = false) (hlast : p.getLast? = some .data) :
    ∃ d, p = pathFor (.blobData d) ∧ digestFromPath p = some d := by
  obtain ⟨c, hc⟩ := ObjectTree.exists_read hp.1 hfile
  obtain ⟨_, x, y, rfl⟩ := hp
  have hlaid := S.blobs_laid _ (ObjectTree.read_eq_some.1 hc) (by simp) (prefix_append _ _) hlast
  obtain ⟨d, hd, hpath⟩ := Option.map_eq_some_iff.1 hlaid
  exact ⟨d, hpath.symm, hd⟩

/-- No blob is refused. -/
theorem ingestBlob_accepts (hp : Below S.toObjectTree (pathFor .blobs) p)
    (es : List Digest) (e : StoreError) : ingestBlob marked p (S.isDir p) ≠ some (es, .fail e) := by
  intro h
  unfold ingestBlob at h
  split at h
  · cases h
  next hfile =>
  split at h
  · cases h
  · next hlast =>
    obtain ⟨d, _, hd⟩ := ingestBlob_file hp (by simpa using hfile) (by simpa using hlast)
    rw [hd] at h
    cases h

/-- **The walk of the blob store returns no error** exactly when its requests are answered. -/
theorem blobs_ok_iff (h : enumerateBlobs w faults sched S marked = some r) :
    r.error = none ↔ Walker.Present w S.toObjectTree (pathFor .blobs) ∧
      Answered (Walker.listing w) S.toObjectTree (faults .blobs) (fun _ => true)
        (pathFor .blobs) := by
  rw [walkParallel_ok_iff ingestBlob_guided h, allClear_iff]
  refine and_congr_right fun _ => ⟨fun hc => hc.1, fun hc => ⟨hc, fun p hp => ?_⟩⟩
  exact ingestBlob_accepts hp.isBelow

/-- **It finds exactly the stored blobs without a mark.** -/
theorem mem_enumerateBlobs (h : enumerateBlobs w faults sched S marked = some r)
    (hok : r.error = none) : d ∈ r.effects ↔ Stored S d ∧ d ∉ marked := by
  constructor
  · intro hd
    obtain ⟨p, es, v, hp, hf, hmem⟩ := walkParallel_sound ingestBlob_guided h hd
    unfold ingestBlob at hf
    split at hf
    · cases hf
      cases hmem
    next hfile =>
    split at hf
    · cases hf
      cases hmem
    next hlast =>
    obtain ⟨d', hpath, hd'⟩ := ingestBlob_file hp (by simpa using hfile) (by simpa using hlast)
    rw [hd'] at hf
    cases hf
    split at hmem
    · cases hmem
    · next hnot =>
      obtain rfl := mem_singleton.1 hmem
      obtain ⟨c, hc⟩ := ObjectTree.exists_read hp.1 (by simpa using hfile)
      exact ⟨⟨c, hpath ▸ hc⟩, hnot⟩
  · rintro ⟨⟨c, hc⟩, hnot⟩
    have hbelow : Below S.toObjectTree (pathFor .blobs) (pathFor (.blobData d)) := by
      refine ⟨ObjectTree.occupied_of_read hc, .algorithm d.algorithm,
        [.firstTwo (firstTwo d), .hex d.encoded, .data], ?_⟩
      simp [pathFor, digestPathComponents]
    obtain ⟨es, v, hf, hes⟩ := walkParallel_complete ingestBlob_guided h hok (visited_all.2 hbelow)
    apply hes
    have hlast : (pathFor (.blobData d)).getLast? = some .data := by
      simp [pathFor, List.getLast?_cons]
    unfold ingestBlob at hf
    rw [ObjectTree.isDir_of_read hc, if_neg (by simp), if_neg (by simp [hlast]),
      digestFromPath_blobData] at hf
    cases hf
    simp [hnot]

end Blobs

end ContainerRegistry.Analysis.Offline
