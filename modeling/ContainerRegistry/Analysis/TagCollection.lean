import ContainerRegistry.Analysis.RevisionCollection

/-!
# Collection with `RemoveUntagged`

The collector keeps the tagged manifests and the members of tagged lists (`Kept`), and does not look
into the members: a list in a list is kept, and its members are not.
-/

namespace ContainerRegistry.Analysis.Offline

open Library Model List

variable {S : Storage} {w : Walker} {sched : Schedule} {dryRun : Bool}
  {name : Path} {d : Digest} {turns : List Turn} {out : Collected}

/-! ## What tags reach -/

def Tagged (S : Storage) (name : Path) (d : Digest) : Prop :=
  ∃ tag, S.read (pathFor (.manifestTagCurrent name tag)) = some (.link d)

/-- A tag of the repository reaches the manifest `d`, through lists of any depth. -/
inductive TagReaches (S : Storage) (name : Path) : Digest → Prop where
  | tagged {d : Digest} (h : Tagged S name d) : TagReaches S name d
  | member {d d' : Digest} {m : Manifest} (h : TagReaches S name d) (hm : Serves S name d m)
      (hd : d' ∈ m.members) : TagReaches S name d'

/-- The manifest is tagged or a member of a tagged list. -/
def Kept (S : Storage) (name : Path) (d : Digest) : Prop :=
  Tagged S name d ∨ ∃ t m, Tagged S name t ∧ Serves S name t m ∧ d ∈ m.members

/-- The repository holds the manifest `d`: it is linked under its digest and stored. -/
def Holds (S : Storage) (name : Path) (d : Digest) : Prop :=
  S.read (pathFor (.manifestRevisionLink name d)) = some (.link d) ∧
    ∃ m, S.read (pathFor (.blobData d)) = some (.manifest m)

structure Intact (S : Storage) : Prop where
  layers : ∀ n : Name, (∃ d, Tagged S n.components d) → HasLayers S n.components
  manifests : ∀ n : Name, ∀ d, TagReaches S n.components d → Holds S n.components d

/-- Nothing that a tag reaches is deleted: no revision link of a manifest, and no blob. -/
def TagSafe (S : Storage) (out : Collected) : Prop :=
  ∀ n : Name, ∀ d, TagReaches S n.components d →
    out.storage.read (pathFor (.manifestRevisionLink n.components d)) =
        S.read (pathFor (.manifestRevisionLink n.components d)) ∧
      ∀ b, (b = d ∨ ∃ m, Serves S n.components d m ∧ b ∈ m.references) →
        Stored S b → Stored out.storage b

def Flat (S : Storage) (name : Path) : Prop :=
  ∀ d m d', Kept S name d → Serves S name d m → d' ∈ m.members → Kept S name d'

theorem Kept.tagReaches (h : Kept S name d) : TagReaches S name d := by
  rcases h with h | ⟨t, m, ht, hm, hd⟩
  · exact .tagged h
  · exact .member (.tagged ht) hm hd

theorem TagReaches.kept (h : TagReaches S name d) (hflat : Flat S name) : Kept S name d := by
  induction h with
  | tagged h => exact .inl h
  | member _ hm hd ih => exact hflat _ _ _ ih hm hd

theorem TagReaches.exists_tagged (h : TagReaches S name d) : ∃ t, Tagged S name t := by
  induction h with
  | tagged h => exact ⟨_, h⟩
  | member _ _ _ ih => exact ih

theorem Holds.serves (h : Holds S name d) : ∃ m, Serves S name d m := by
  obtain ⟨hlink, m, hm⟩ := h
  exact ⟨m, d, .inl hlink, hm⟩

theorem Holds.revisionLink (h : Holds S name d) : RevisionLink S name d := by
  refine ⟨_, ⟨ObjectTree.occupied_of_read h.1, .algorithm d.algorithm, [.hex d.encoded, .link],
    ?_⟩, ?_, h.1⟩
  · simp [pathFor, digestPathComponents]
  · simp [pathFor, List.getLast?_cons]

section Tags

variable {fails : Request Segment → Bool} {tags : List Segment} {ts : List (Segment × Digest)}

/-- The tags that are read. -/
theorem mem_readTags (h : readTags fails S name tags = .ok ts) {tag} :
    (tag, d) ∈ ts ↔
      tag ∈ tags ∧ S.read (pathFor (.manifestTagCurrent name tag)) = some (.link d) := by
  induction tags generalizing ts with
  | nil =>
    cases h
    simp
  | cons t tags ih =>
    rw [readTags] at h
    split at h
    · next hnone =>
      rw [ih h, mem_cons]
      constructor
      · rintro ⟨ht, hr⟩
        exact ⟨.inr ht, hr⟩
      · rintro ⟨rfl | ht, hr⟩
        · rw [readlink_pathNotFound hnone] at hr
          cases hr
        · exact ⟨ht, hr⟩
    · cases h
    · next d' hd' =>
      cases hrest : readTags fails S name tags with
      | error e =>
        rw [hrest] at h
        cases h
      | ok rest =>
        rw [hrest] at h
        cases h
        rw [mem_cons, ih hrest, mem_cons, Prod.mk.injEq]
        have hread := readlink_ok hd'
        constructor
        · rintro (⟨rfl, rfl⟩ | ⟨ht, hr⟩)
          · exact ⟨.inl rfl, hread⟩
          · exact ⟨.inr ht, hr⟩
        · rintro ⟨rfl | ht, hr⟩
          · rw [hread] at hr
            cases hr
            exact .inl ⟨rfl, rfl⟩
          · exact .inr ⟨ht, hr⟩

/-- **The tag cache knows the tagged manifests.** -/
theorem any_primeTags (h : primeTags fails S name = .ok ts) :
    (ts.any fun t => decide (t.2 = d)) = true ↔ Tagged S name d := by
  have hchild : ∀ {tag}, S.read (pathFor (.manifestTagCurrent name tag)) = some (.link d) →
      tag ∈ S.children (pathFor (.manifestTags name)) := by
    intro tag htag
    have hocc := ObjectTree.occupied_of_read htag
    refine ObjectTree.mem_children.2 (ObjectTree.occupied_of_append (q := [.current, .link]) ?_)
    simpa [pathFor] using hocc
  unfold primeTags at h
  rw [any_eq_true]
  split at h
  · cases h
  split at h
  · constructor
    · rintro ⟨⟨tag, d'⟩, hmem, hd⟩
      obtain rfl : d' = d := of_decide_eq_true hd
      exact ⟨tag, ((mem_readTags h).1 hmem).2⟩
    · rintro ⟨tag, htag⟩
      exact ⟨(tag, d), (mem_readTags h).2 ⟨hchild htag, htag⟩, decide_eq_true rfl⟩
  · next hdir =>
    cases h
    constructor
    · rintro ⟨t, ht, _⟩
      cases ht
    · rintro ⟨tag, htag⟩
      exact absurd (ObjectTree.isDir_of_child (hchild htag)) hdir

end Tags

/-! ## Marking a repository -/

/-- The tags and the revision links of the repository can be read. -/
def LinksRead (S : Storage) (name : Path) : Prop :=
  (∃ ts, primeTags (noFaults (.tags name)) S name = .ok ts) ∧
    ∀ p, Below S.toObjectTree (pathFor (.manifestRevisions name)) p →
      ∀ es e, ingestLink noFaults S name p (S.isDir p) ≠ some (es, .fail e)

theorem answered_noFaults {phase : Phase} {ℓ : Listing Segment Content} {enters : Path → Bool}
    {root : Path} : Answered ℓ S.toObjectTree (noFaults phase) enters root :=
  ⟨fun _ _ => rfl, fun _ _ _ _ => rfl, fun _ _ _ _ _ _ => rfl⟩

/-- Without faults, only links that cannot be read are in the way. -/
theorem listed_noFaults : Listed w noFaults S name ↔
    ∀ p, Below S.toObjectTree (pathFor (.manifestRevisions name)) p →
      ∀ es e, ingestLink noFaults S name p (S.isDir p) ≠ some (es, .fail e) := by
  unfold Listed
  constructor
  · rintro ⟨_, hclear⟩ p hp
    have hpres : Walker.Present w S.toObjectTree (pathFor (.manifestRevisions name)) := by
      by_contra habs
      exact not_below_of_absent habs hp
    exact (allClear_iff.1 (hclear hpres)).2 p (visited_all.2 hp)
  · intro h
    exact ⟨rfl, fun _ => allClear_iff.2 ⟨answered_noFaults, fun p hp => h p hp.isBelow⟩⟩

theorem getManifest_noFaults {phase m} (h : Serves S name d m) :
    getManifest (noFaults phase) S name d = .ok m := by
  rcases getManifest_of_serves h with h | ⟨q, hq, _⟩
  · exact h
  · cases hq

/-- What is marked, and what is to be deleted. -/
theorem markTagged_events {tags tagged untagged evs err}
    (htagged : ∀ d, d ∈ tagged ↔ Tagged S name d) (hholds : ∀ d, Kept S name d → Holds S name d)
    (h : markTagged noFaults S name tags tagged untagged = (evs, err)) :
    err = none ∧
      (∀ b, .mark b ∈ evs ↔
        ∃ d, Kept S name d ∧ (b = d ∨ ∃ m, Serves S name d m ∧ b ∈ m.references)) ∧
      (∀ m, .eligible m ∈ evs ↔ ∃ d ∈ untagged, ¬ (∃ t m', Tagged S name t ∧
        Serves S name t m' ∧ d ∈ m'.members) ∧ m = ⟨name, d, tags.map Prod.fst⟩) := by
  have hread : ∀ (phase : Digest → Phase) (ds : List Digest), (∀ d ∈ ds, Kept S name d) →
      ∃ ms, getManifests (fun d => noFaults (phase d)) S name ds = .ok ms := by
    intro phase ds hds
    refine exists_getManifests.2 fun d hd => ?_
    obtain ⟨m, hm⟩ := (hholds d (hds d hd)).serves
    exact ⟨m, getManifest_noFaults hm⟩
  obtain ⟨ms, hms⟩ := hread (.tagged name) tagged fun d hd => .inl ((htagged d).1 hd)
  obtain ⟨hhas, hserves⟩ := getManifests_ok hms
  have hmembers : ∀ d, (d ∈ ms.flatMap fun m => m.2.members) ↔
      ∃ t m, Tagged S name t ∧ Serves S name t m ∧ d ∈ m.members := by
    intro d
    rw [mem_flatMap]
    constructor
    · rintro ⟨x, hx, hd⟩
      exact ⟨x.1, x.2, (htagged _).1 (hserves x hx).1, (hserves x hx).2, hd⟩
    · rintro ⟨t, m, ht, hm, hd⟩
      obtain ⟨m', hm'⟩ := hhas t ((htagged t).2 ht)
      refine ⟨(t, m'), hm', ?_⟩
      rwa [(hserves _ hm').2.unique hm]
  obtain ⟨rs, hrs⟩ := hread (.referenced name) (ms.flatMap fun m => m.2.members).dedup
    fun d hd => .inr ((hmembers d).1 (mem_dedup.1 hd))
  obtain ⟨hrhas, hrserves⟩ := getManifests_ok hrs
  unfold markTagged at h
  rw [hms] at h
  simp only at h
  unfold markReferenced at h
  rw [hrs] at h
  cases h
  refine ⟨rfl, fun b => ?_, fun m => ?_⟩
  · -- a mark is of a tagged manifest, of a blob of one, of a member or of what a member names
    simp only [mem_append, mem_map, MarkEvent.mark.injEq, exists_eq_right, htagged,
      mem_dedup, reduceCtorEq, and_false, exists_false, or_false, hmembers]
    constructor
    · rintro ((((ht | hb) | hm) | hb))
      · exact ⟨b, .inl ht, .inl rfl⟩
      · obtain ⟨x, hx, hbx⟩ := mem_flatMap.1 hb
        obtain ⟨ht, hm⟩ := hserves x hx
        refine ⟨x.1, .inl ((htagged _).1 ht), .inr ⟨x.2, hm, ?_⟩⟩
        cases hxm : x.2 with
        | image config layers => rwa [hxm] at hbx
        | list manifests =>
          rw [hxm] at hbx
          cases hbx
      · exact ⟨b, .inr hm, .inl rfl⟩
      · obtain ⟨x, hx, hbx⟩ := mem_flatMap.1 hb
        obtain ⟨hd, hm⟩ := hrserves x hx
        exact ⟨x.1, .inr ((hmembers _).1 (mem_dedup.1 hd)), .inr ⟨x.2, hm, hbx⟩⟩
    · rintro ⟨d, hd | hd, rfl | ⟨m, hm, hb⟩⟩
      · exact .inl (.inl (.inl hd))
      · obtain ⟨m', hm'⟩ := hhas d ((htagged d).2 hd)
        obtain rfl := (hserves _ hm').2.unique hm
        cases m' with
        | image config layers => exact .inl (.inl (.inr (mem_flatMap.2 ⟨_, hm', hb⟩)))
        | list manifests => exact .inl (.inr ⟨d, _, hd, hm, hb⟩)
      · exact .inl (.inr hd)
      · obtain ⟨m', hm'⟩ := hrhas d (mem_dedup.2 ((hmembers d).2 hd))
        obtain rfl := (hrserves _ hm').2.unique hm
        exact .inr (mem_flatMap.2 ⟨_, hm', hb⟩)
  · simp only [mem_append, mem_map, mem_filter, decide_eq_true_eq, hmembers,
      reduceCtorEq, and_false, exists_false, or_false, false_or, MarkEvent.eligible.injEq]
    exact exists_congr fun d => by rw [and_assoc, eq_comm]

section Repository

variable {evs : List MarkEvent} {err : Option StoreError}

section

variable (hname : validName name = true) (hholds : ∀ d, Kept S name d → Holds S name d)
include hname hholds

/-- INTERNAL: one repository. -/
theorem markRepository_tags
    (h : markRepository w noFaults ⟨dryRun, true⟩ S turns name = some (evs, err)) :
    (err = none ↔ LinksRead S name) ∧
      (err = none → ∃ ts tagged untagged,
        markTagged noFaults S name ts tagged untagged = (evs, err) ∧
        (∀ d, d ∈ tagged ↔ Tagged S name d) ∧
        (∀ d, d ∈ untagged ↔ Found noFaults S name d ∧ ¬ Tagged S name d)) := by
  have hmask : ¬ Masked w noFaults name := fun hm => (by cases hm.2)
  unfold markRepository at h
  rw [if_pos hname] at h
  simp only [if_true] at h
  split at h
  · next e herr =>
    cases h
    refine ⟨⟨nofun, fun hl => ?_⟩, nofun⟩
    obtain ⟨ts, hts⟩ := hl.1
    rw [herr] at hts
    cases hts
  next ts hts =>
  obtain ⟨r, hr, heq⟩ := Option.map_eq_some_iff.1 h
  obtain ⟨hall, hfound⟩ := enumerateManifests_spec hmask hr
  by_cases hl : Listed w noFaults S name
  · rw [if_pos (hall.2 hl)] at heq
    unfold markManifests at heq
    simp only [if_true] at heq
    have htagged : ∀ d, d ∈ (r.effects.filter fun d => ts.any fun t => t.2 = d).dedup ↔
        Tagged S name d := by
      intro d
      rw [mem_dedup, mem_filter, any_primeTags hts, hfound hl]
      refine ⟨fun hd => hd.2, fun hd => ⟨?_, hd⟩⟩
      have hd' := hholds d (.inl hd)
      obtain ⟨m, hm⟩ := hd'.2
      have hpres : Walker.Present w S.toObjectTree (pathFor (.manifestRevisions name)) := by
        by_contra habs
        obtain ⟨p, hp, _⟩ := hd'.revisionLink
        exact not_below_of_absent habs hp
      exact found_of_revisionLink (hl.2 hpres) hd'.revisionLink (.inl hd'.1) ⟨_, hm⟩
    have herr := (markTagged_events htagged hholds heq).1
    refine ⟨⟨fun _ => ⟨⟨ts, hts⟩, listed_noFaults.1 hl⟩, fun _ => herr⟩, fun _ => ?_⟩
    refine ⟨ts, _, _, heq, htagged, fun d => ?_⟩
    rw [mem_dedup, mem_filter, hfound hl, Bool.not_eq_true', ← Bool.not_eq_true, any_primeTags hts]
  · rw [if_neg fun hn => hl (hall.1 hn)] at heq
    cases heq
    exact ⟨⟨nofun, fun hn => absurd (listed_noFaults.2 hn.2) hl⟩, nofun⟩

variable (h : markRepository w noFaults ⟨dryRun, true⟩ S turns name = some (evs, none))
include h

/-- **A repository marks what its kept manifests reach.** -/
theorem markRepository_marks (b : Digest) :
    .mark b ∈ evs ↔ ∃ d, Kept S name d ∧ (b = d ∨ ∃ m, Serves S name d m ∧ b ∈ m.references) := by
  obtain ⟨ts, tagged, untagged, heq, htagged, _⟩ := (markRepository_tags hname hholds h).2 rfl
  exact (markTagged_events htagged hholds heq).2.1 b

/-- **It wants the other manifests deleted.** -/
theorem markRepository_deletes :
    (∀ m, .eligible m ∈ evs → m.name = name ∧ ¬ Kept S name m.digest) ∧
      (∀ d, Found noFaults S name d → ¬ Kept S name d →
        ∃ m, .eligible m ∈ evs ∧ m.name = name ∧ m.digest = d) := by
  obtain ⟨ts, tagged, untagged, heq, htagged, huntagged⟩ :=
    (markRepository_tags hname hholds h).2 rfl
  have helig := (markTagged_events htagged hholds heq).2.2
  constructor
  · intro m hm
    obtain ⟨d, hd, hnot, rfl⟩ := (helig m).1 hm
    exact ⟨rfl, fun hk => hk.elim ((huntagged d).1 hd).2 hnot⟩
  · intro d hd hk
    refine ⟨⟨name, d, ts.map Prod.fst⟩, (helig _).2 ⟨d, ?_, fun hm => hk (.inr hm), rfl⟩, rfl, rfl⟩
    exact (huntagged d).2 ⟨hd, fun ht => hk (.inl ht)⟩

end

end Repository

/-! ## A run -/

/-- A link belongs to one manifest. -/
theorem revisionLink_mem_links {m : ManifestDel} (hname : validName name = true)
    (hm : validName m.name = true)
    (h : pathFor (.manifestRevisionLink name d) ∈ m.links) : m.name = name ∧ m.digest = d := by
  have hsplit : ∀ {X Y : Path}, name ++ .manifests :: X = m.name ++ .manifests :: Y →
      m.name = name ∧ X = Y := by
    intro X Y heq
    obtain ⟨htake, hdrop⟩ :=
      split_at_special (r := X) (u := .manifests) (not_special_of_valid hname) rfl
    obtain ⟨htake', hdrop'⟩ :=
      split_at_special (r := Y) (u := .manifests) (not_special_of_valid hm) rfl
    rw [heq] at htake hdrop
    rw [htake'] at htake
    rw [hdrop'] at hdrop
    cases hdrop
    exact ⟨htake, rfl⟩
  unfold ManifestDel.links at h
  rcases mem_cons.1 h with heq | hidx
  · have hrest : name ++ .manifests :: .revisions :: (digestPathComponents d false ++ [.link]) =
        m.name ++ .manifests :: .revisions :: (digestPathComponents m.digest false ++ [.link]) := by
      simpa [pathFor, repoPrefix] using heq
    obtain ⟨hn, hd⟩ := hsplit hrest
    refine ⟨hn, ?_⟩
    simp only [digestPathComponents, Bool.false_eq_true, if_false, cons_append,
      nil_append, List.cons.injEq, Segment.algorithm.injEq, Segment.hex.injEq, true_and,
      and_true] at hd
    obtain ⟨ha, he⟩ := hd
    cases d
    cases hmd : m.digest
    rw [hmd] at ha he
    cases ha
    cases he
    rfl
  · obtain ⟨t, _, heq⟩ := mem_map.1 hidx
    have hrest : name ++ .manifests :: .revisions :: (digestPathComponents d false ++ [.link]) =
        m.name ++ .manifests :: .tags :: t :: .index ::
          (digestPathComponents m.digest false ++ [.link]) := by
      simpa [pathFor, repoPrefix] using heq.symm
    cases (hsplit hrest).2

theorem present_of_below {root p : Path} (h : Below S.toObjectTree root p) :
    Walker.Present w S.toObjectTree root := by
  by_contra habs
  exact not_below_of_absent habs h

theorem Intact.holds (hS : Intact S) (n : Name) : ∀ d, Kept S n.components d →
    Holds S n.components d :=
  fun d hd => hS.manifests n d hd.tagReaches

section Repositories

variable {r : Walked Segment MarkEvent Failure} (hS : Intact S)
  (h : markRepositories w noFaults ⟨dryRun, true⟩ sched S = some r)
include hS h

/-- Marking comes out well exactly if all links can be read. -/
theorem markRepositories_tags_ok {n : Name} (hlayers : HasLayers S n.components) :
    r.error = none ↔ ∀ n : Name, HasLayers S n.components → LinksRead S n.components := by
  constructor
  · intro hok n hlay
    obtain ⟨evs, hevs, _⟩ := repositories_complete h hok n.valid hlay
    exact (markRepository_tags n.valid (hS.holds n) hevs).1.1 rfl
  · intro hlinks
    refine (repositories_ok_iff h).2
      ⟨present_of_below (visited_layers n.valid hlayers).isBelow, answered_noFaults, ?_⟩
    intro name hname hlay evs e hevs
    cases (markRepository_tags hname (hS.holds ⟨name, hname⟩) hevs).1.2 (hlinks ⟨name, hname⟩ hlay)

/-- Nothing that is kept is deleted. -/
theorem not_kept_of_deleted (hok : r.error = none) {m}
    (hm : m ∈ r.effects.filterMap MarkEvent.manifestDel) :
    validName m.name = true ∧ ¬ Kept S m.name m.digest := by
  obtain ⟨ev, hev, hevm⟩ := mem_filterMap.1 hm
  obtain ⟨name, evs, hname, hlayers, hevs, hmem⟩ := repositories_sound h hok hev
  cases ev with
  | mark _ => cases hevm
  | eligible m' =>
    cases hevm
    obtain ⟨rfl, hnot⟩ := (markRepository_deletes hname (hS.holds ⟨name, hname⟩) hevs).1 m hmem
    exact ⟨hname, hnot⟩

/-- Nothing else stays. -/
theorem deleted_of_not_kept (hok : r.error = none)
    {n : Name} (hlayers : HasLayers S n.components) (hd : Holds S n.components d)
    (hnot : ¬ Kept S n.components d) :
    ∃ m ∈ r.effects.filterMap MarkEvent.manifestDel,
      pathFor (.manifestRevisionLink n.components d) ∈ m.links := by
  have hlinks := (markRepositories_tags_ok hS h hlayers).1 hok n hlayers
  have hfound : Found noFaults S n.components d := by
    have hpres : Walker.Present w S.toObjectTree (pathFor (.manifestRevisions n.components)) := by
      obtain ⟨p, hp, _⟩ := hd.revisionLink
      exact present_of_below hp
    obtain ⟨c, hc⟩ := hd.2
    exact found_of_revisionLink ((listed_noFaults.2 hlinks.2).2 hpres) hd.revisionLink
      (.inl hd.1) ⟨_, hc⟩
  obtain ⟨evs, hevs, hsub⟩ := repositories_complete h hok n.valid hlayers
  obtain ⟨m, hm, hmn, hmd⟩ := (markRepository_deletes n.valid (hS.holds n) hevs).2 d hfound hnot
  refine ⟨m, mem_filterMap.2 ⟨_, hsub _ hm, rfl⟩, ?_⟩
  unfold ManifestDel.links
  rw [hmn, hmd]
  exact mem_cons_self ..

end Repositories

variable {n : Name}

/-- **What is kept survives.** -/
theorem kept_survives (hS : Intact S) (h : markAndSweep w noFaults ⟨false, true⟩ sched S = some out)
    (hok : out.error = none) (hlayers : HasLayers S n.components) (hd : Kept S n.components d) :
    out.storage.read (pathFor (.manifestRevisionLink n.components d)) =
        S.read (pathFor (.manifestRevisionLink n.components d)) ∧
      ∀ b, (b = d ∨ ∃ m, Serves S n.components d m ∧ b ∈ m.references) →
        Stored S b → Stored out.storage b := by
  obtain ⟨r, hr, hmarked, herr, hblobs⟩ := markAndSweep_ok h
  have hrok := herr hok
  obtain ⟨bl, hbl, hiff, hstorage⟩ := hblobs hrok
  have hlink := (hS.holds n d hd).1
  rw [hstorage (hiff.1 hok) rfl]
  refine ⟨?_, fun b hb hs => ?_⟩
  · rw [hlink, read_sweep]
    refine ⟨hlink, fun m hm hmem => ?_, fun b _ heq => ?_⟩
    · obtain ⟨hname, hnot⟩ := not_kept_of_deleted hS hr hrok hm
      obtain ⟨hmn, hmd⟩ := revisionLink_mem_links n.valid hname hmem
      rw [hmn, hmd] at hnot
      exact hnot hd
    · simp [pathFor, repoPrefix, rootPrefix] at heq
  · obtain ⟨evs, hevs, hsub⟩ := repositories_complete hr hrok n.valid hlayers
    have hmark := hsub _ ((markRepository_marks n.valid (hS.holds n) hevs b).2 ⟨d, hd, hb⟩)
    have hmem : b ∈ out.marked := by
      rw [hmarked]
      exact mem_filterMap.2 ⟨_, hmark, rfl⟩
    rw [stored_sweep, mem_enumerateBlobs hbl (hiff.1 hok)]
    exact ⟨hs, fun hn => hn.2 hmem⟩

/-- **The rest is deleted.** -/
theorem not_kept_deleted (hS : Intact S)
    (h : markAndSweep w noFaults ⟨false, true⟩ sched S = some out)
    (hlinks : ∀ n : Name, HasLayers S n.components → LinksRead S n.components)
    (hd : TagReaches S n.components d) (hnot : ¬ Kept S n.components d) :
    out.storage.read (pathFor (.manifestRevisionLink n.components d)) ≠
      S.read (pathFor (.manifestRevisionLink n.components d)) := by
  have hlayers := hS.layers n hd.exists_tagged
  have hhold := hS.manifests n d hd
  obtain ⟨r, hr, _, _, hblobs⟩ := markAndSweep_ok h
  have hrok : r.error = none := (markRepositories_tags_ok hS hr hlayers).2 hlinks
  obtain ⟨b, hb, _, hstorage⟩ := hblobs hrok
  -- the blob store is there, for the manifest is in it
  have hroot : Walker.Present w S.toObjectTree (pathFor .blobs) := by
    obtain ⟨_, c, hc⟩ := hhold
    refine present_of_below ⟨ObjectTree.occupied_of_read hc, .algorithm d.algorithm,
      [.firstTwo (firstTwo d), .hex d.encoded, .data], ?_⟩
    simp [pathFor, digestPathComponents]
  obtain ⟨m, hm, hmem⟩ := deleted_of_not_kept hS hr hrok hlayers hhold hnot
  intro hread
  rw [hhold.1, hstorage ((blobs_ok_iff hb).2 ⟨hroot, answered_noFaults⟩) rfl, read_sweep] at hread
  exact hread.2.1 m hm hmem

/-- **When collection with `RemoveUntagged` is safe.** Where all that tags reach is there, no run
deletes any of it exactly when, outside a dry run and if all links can be read, no list in a tagged
list has a member that is neither tagged nor in a tagged list. garbagecollect.go:85-401,
vacuum.go:165-197 -/
theorem tag_safe_iff (hS : Intact S) :
    (∀ sched out, markAndSweep w noFaults ⟨dryRun, true⟩ sched S = some out → TagSafe S out) ↔
      (dryRun = false → (∀ n : Name, HasLayers S n.components → LinksRead S n.components) →
        ∀ n : Name, Flat S n.components) := by
  constructor
  · intro hsafe hdry hlinks n d m d' hd hm hd'
    subst hdry
    by_contra hnot
    have hreach : TagReaches S n.components d' := .member hd.tagReaches hm hd'
    obtain ⟨sched, out, h⟩ := exists_markAndSweep w noFaults ⟨false, true⟩ S
    exact not_kept_deleted hS h hlinks hreach hnot (hsafe sched out h n d' hreach).1
  · intro hcond sched out h
    have hsame : out.storage = S → TagSafe S out := by
      intro heq n d _
      rw [heq]
      exact ⟨rfl, fun _ _ hs => hs⟩
    by_cases hok : out.error = none
    · cases dryRun with
      | true => exact hsame (markAndSweep_dryRun h rfl)
      | false =>
        intro n d hd
        have hlayers := hS.layers n hd.exists_tagged
        have hflat : Flat S n.components := by
          obtain ⟨r, hr, _, herr, _⟩ := markAndSweep_ok h
          exact hcond rfl ((markRepositories_tags_ok hS hr hlayers).1 (herr hok)) n
        exact kept_survives hS h hok hlayers (hd.kept hflat)
    · exact hsame (markAndSweep_error h hok)

/-! ## A list of lists -/

/-- The only tag of the sample. -/
theorem nestedImage_tagged (h : Tagged nestedImage n.components d) :
    n.components = sampleName.components ∧ d = sampleDigest 10 := by
  obtain ⟨tag, htag⟩ := h
  have hmem := ObjectTree.read_eq_some.1 htag
  have hpath : pathFor (.manifestTagCurrent n.components tag) =
      pathFor .repositoriesRoot ++
        (n.components ++ .manifests :: [.tags, tag, .current, .link]) := by
    simp [pathFor, repoPrefix]
  have hnames : ∀ e ∈ nestedImage.entries, pathFor .repositoriesRoot <+: e.1 →
      (e.1.drop (pathFor .repositoriesRoot).length).takeWhile (fun c => !c.special) =
        sampleName.components := by decide +kernel
  have hn : n.components = sampleName.components := by
    have hname := hnames _ hmem (hpath ▸ prefix_append _ _)
    rw [hpath, drop_left, (split_at_special (not_special_of_valid n.valid) rfl).1] at hname
    exact hname
  refine ⟨hn, ?_⟩
  rw [hn] at hmem
  simp [nestedImage, pathFor, repoPrefix, rootPrefix, digestPathComponents] at hmem
  exact hmem.2

theorem nestedImage_serves :
    Serves nestedImage sampleName.components (sampleDigest 10) (.list [sampleDigest 11]) ∧
    Serves nestedImage sampleName.components (sampleDigest 11) (.list [sampleDigest 12]) ∧
    Serves nestedImage sampleName.components (sampleDigest 12)
      (.image (some (sampleDigest 13)) [sampleDigest 14]) := by
  refine ⟨⟨sampleDigest 10, .inl ?_, ?_⟩, ⟨sampleDigest 11, .inl ?_, ?_⟩,
    ⟨sampleDigest 12, .inl ?_, ?_⟩⟩
  all_goals decide +kernel

/-- What it reaches. -/
theorem nestedImage_reaches (h : TagReaches nestedImage n.components d) :
    n.components = sampleName.components ∧
      (d = sampleDigest 10 ∨ d = sampleDigest 11 ∨ d = sampleDigest 12) := by
  induction h with
  | tagged h =>
    obtain ⟨hn, hd⟩ := nestedImage_tagged h
    exact ⟨hn, .inl hd⟩
  | @member d d' m _ hm hd ih =>
    obtain ⟨hn, hd'⟩ := ih
    refine ⟨hn, ?_⟩
    rw [hn] at hm
    obtain ⟨h10, h11, h12⟩ := nestedImage_serves
    rcases hd' with rfl | rfl | rfl
    · obtain rfl := hm.unique h10
      exact .inr (.inl (mem_singleton.1 hd))
    · obtain rfl := hm.unique h11
      exact .inr (.inr (mem_singleton.1 hd))
    · obtain rfl := hm.unique h12
      cases hd

/-- The sample is intact. -/
theorem nestedImage_intact : Intact nestedImage where
  layers := fun n ⟨d, hd⟩ => by
    rw [(nestedImage_tagged hd).1]
    show nestedImage.occupied _ = true
    decide +kernel
  manifests := fun n d hd => by
    obtain ⟨hn, hd⟩ := nestedImage_reaches hd
    rw [hn]
    rcases hd with rfl | rfl | rfl
    · exact ⟨by decide +kernel, .list [sampleDigest 11], by decide +kernel⟩
    · exact ⟨by decide +kernel, .list [sampleDigest 12], by decide +kernel⟩
    · exact ⟨by decide +kernel, .image (some (sampleDigest 13)) [sampleDigest 14],
        by decide +kernel⟩

/-- An image two lists below a tag. -/
theorem tag_safe_iff_nested : Intact nestedImage ∧
    ((∀ sched out, markAndSweep .fallback noFaults ⟨false, true⟩ sched nestedImage = some out →
        TagSafe nestedImage out) ↔
      (false = false →
        (∀ n : Name, HasLayers nestedImage n.components → LinksRead nestedImage n.components) →
          ∀ n : Name, Flat nestedImage n.components)) :=
  ⟨nestedImage_intact, tag_safe_iff nestedImage_intact⟩

/-- **An image two lists below a tag is deleted**: its revision link is gone after the run. -/
theorem nested_list_swept : Intact nestedImage ∧
    ∃ sched out, markAndSweep .fallback noFaults ⟨false, true⟩ sched nestedImage = some out ∧
      ¬ TagSafe nestedImage out := by
  have hrun : ((markAndSweep .fallback noFaults ⟨false, true⟩ ⟨[], fun _ => [], []⟩
      nestedImage).any fun out => decide (out.storage.read
        (pathFor (.manifestRevisionLink sampleName.components (sampleDigest 12))) = none)) =
          true := by decide +kernel
  obtain ⟨out, hout, hgone⟩ := (Option.any_eq_true _ _).1 hrun
  refine ⟨nestedImage_intact, _, out, hout, fun hsafe => ?_⟩
  have hreach : TagReaches nestedImage sampleName.components (sampleDigest 12) := by
    have htag : Tagged nestedImage sampleName.components (sampleDigest 10) :=
      ⟨.word 1, by decide +kernel⟩
    exact .member (.member (.tagged htag) nestedImage_serves.1 (mem_singleton_self _))
      nestedImage_serves.2.1 (mem_singleton_self _)
  have hsame := (hsafe sampleName (sampleDigest 12) hreach).1
  rw [of_decide_eq_true hgone] at hsame
  revert hsame
  decide +kernel

end ContainerRegistry.Analysis.Offline
