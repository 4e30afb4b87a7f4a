import ContainerRegistry.Analysis.S3Deletes

/-!
# What an S3 `Stat` tells

`Stat` looks at the first key with the path as a string prefix, that of the object at the path if
there is one. Any other key makes the path a directory, also one that does not go on with a slash.
-/

namespace ContainerRegistry.Analysis.S3

open List

open Library Model.S3

variable {svc : Service} {B : Bucket} {s root path : Key}

/-! ## `Stat` -/

theorem stat_eq (hfault : svc.listFault 0 = none) :
    stat svc root B path =
      match (listing B (s3Path root path)).head? with
      | none => .error (.pathNotFound path)
      | some o =>
        if o.key ≠ s3Path root path then .ok ⟨path, true, 0, 0⟩
        else .ok ⟨path, false, o.size, o.modTime⟩ := by
  have hcommon : (listObjectsV2 B (s3Path root path) false none 0 1).commonPrefixes = [] := by
    simp [listObjectsV2, ← map_take, filterMap_map, Function.comp_def, Item.commonPrefix?]
  have hcontents : (listObjectsV2 B (s3Path root path) false none 0 1).contents =
      (listing B (s3Path root path)).take 1 := listObjectsV2_contents
  simp only [stat, hfault, hcontents, hcommon]
  cases listing B (s3Path root path) with
  | nil | cons o os => rfl

/-- An object comes first in its listing. -/
theorem head_of_object {o x} (ho : (listing B s).head? = some o) (hx : x ∈ B.objects)
    (hkey : x.key = s) : o = x := by
  have hmem : x ∈ listing B s := mem_listing.2 ⟨hx, hkey ▸ prefix_rfl⟩
  have hsorted : SortedBy Object.key (listing B s) := listing_sorted
  cases hlist : listing B s with
  | nil =>
    rw [hlist] at hmem
    cases hmem
  | cons a l =>
    rw [hlist, List.head?_cons, Option.some.injEq] at ho
    subst ho
    have ha : s <+: a.key := (mem_listing.1 (hlist ▸ mem_cons_self)).2
    rw [hlist] at hmem hsorted
    rcases mem_cons.1 hmem with hmem | hmem
    · exact hmem.symm
    · have hlt := (pairwise_cons.1 hsorted).1 x hmem
      rw [hkey] at hlt
      exact absurd hlt (not_lt_of_starts ha)

section

variable (hfault : svc.listFault 0 = none)
include hfault

/-- **`Stat` finds an object at the path.** -/
theorem stat_file {x} (hx : x ∈ B.objects) (hkey : x.key = s3Path root path) :
    stat svc root B path = .ok ⟨path, false, x.size, x.modTime⟩ := by
  have hmem : x ∈ listing B (s3Path root path) := mem_listing.2 ⟨hx, hkey ▸ prefix_rfl⟩
  rw [stat_eq hfault]
  cases hhead : (listing B (s3Path root path)).head? with
  | none =>
    rw [List.head?_eq_none_iff.1 hhead] at hmem
    cases hmem
  | some o =>
    rw [head_of_object hhead hx hkey]
    simp [hkey]

/-- **Without one, any key with the path as a string prefix makes it a directory.** -/
theorem stat_directory {x} (hx : x ∈ B.objects)
    (hstarts : s3Path root path <+: x.key) (hnone : ∀ o ∈ B.objects, o.key ≠ s3Path root path) :
    stat svc root B path = .ok ⟨path, true, 0, 0⟩ := by
  have hmem : x ∈ listing B (s3Path root path) := mem_listing.2 ⟨hx, hstarts⟩
  rw [stat_eq hfault]
  cases hhead : (listing B (s3Path root path)).head? with
  | none =>
    rw [List.head?_eq_none_iff.1 hhead] at hmem
    cases hmem
  | some o =>
    have ho := (mem_listing.1 (List.mem_of_head? hhead)).1
    simp [hnone o ho]

theorem stat_missing (hnone : ∀ o ∈ B.objects, ¬ s3Path root path <+: o.key) :
    stat svc root B path = .error (.pathNotFound path) := by
  have hnil : listing B (s3Path root path) = [] := by
    rw [eq_nil_iff_forall_not_mem]
    intro o ho
    exact hnone o (mem_listing.1 ho).1 (mem_listing.1 ho).2
  rw [stat_eq hfault, hnil]
  rfl

end

/-! ## `List` -/

theorem rollUp_eq_nil_iff {os} : rollUp s os = [] ↔ os = [] := by
  cases os with
  | nil => simp [rollUp]
  | cons o os =>
    simp only [rollUp, reduceCtorEq, iff_false]
    split
    · simp
    · split <;> simp

/-- Rolling up adds nothing. -/
theorem length_rollUp_le {os} : (rollUp s os).length ≤ os.length := by
  induction os with
  | nil => simp [rollUp]
  | cons o os ih =>
    rw [rollUp]
    cases hr : rollUp s os with
    | nil => simp
    | cons item items =>
      rw [hr] at ih
      simp only
      split
      · exact ih.trans (Nat.le_succ _)
      · exact Nat.succ_le_succ ih

/-- INTERNAL: the pages of a listing, by induction. -/
theorem listPages_spec (root opath : Key) (files directories : List Key)
    (hfault : ∀ i, svc.listFault i = none) {fuel i token}
    (htoken : token ≤ (rollUp s (listing B s)).length)
    (hfuel : (rollUp s (listing B s)).length < fuel + token) :
    listPages svc root B opath s fuel i token files directories =
      some (.ok
        (files ++ (((rollUp s (listing B s)).drop token).filterMap Item.content?).map
          fun o => stripRoot root o.key,
        directories ++ (((rollUp s (listing B s)).drop token).filterMap Item.commonPrefix?).map
          fun p => stripRoot root p.dropLast)) := by
  induction fuel generalizing i token files directories with
  | zero => omega
  | succ fuel ih =>
    have hpos := svc.pageSize_pos i
    set items := rollUp s (listing B s) with hitems
    have hresp : listObjectsV2 B s true none token (svc.pageSize i) =
        ⟨((items.drop token).take (svc.pageSize i)).filterMap Item.content?,
          ((items.drop token).take (svc.pageSize i)).filterMap Item.commonPrefix?,
          decide (svc.pageSize i < (items.drop token).length)⟩ := rfl
    -- a page and what is behind it
    have hsplit : ∀ {β : Type} (f : Item → Option β), (items.drop token).filterMap f =
        ((items.drop token).take (svc.pageSize i)).filterMap f ++
          (items.drop (token + svc.pageSize i)).filterMap f := by
      intro β f
      rw [← filterMap_append, ← drop_drop, take_append_drop]
    rw [listPages, hfault i]
    simp only [hresp, decide_eq_true_eq, length_drop]
    rw [hsplit, hsplit, map_append, map_append, ← append_assoc, ← append_assoc]
    split
    · next hmore => exact ih _ _ (by omega) (by omega)
    · next hend =>
      have hnil : items.drop (token + svc.pageSize i) = [] := by
        rw [drop_eq_nil_iff]
        omega
      simp [hnil]

/-- A valid path ends in a letter. -/
theorem letters_of_validPath (h : ValidPath path) :
    (∃ c ∈ path, c ≠ '/') ∧ path.getLast? ≠ some '/' := by
  obtain ⟨parts, hne, hparts, rfl⟩ := h
  have hslash : pathLetter '/' = false := by decide
  obtain ⟨init, part, rfl⟩ := eq_nil_or_concat' parts |>.resolve_left hne
  obtain ⟨hpart, hletters⟩ := hparts part (mem_append_right _ (mem_singleton.2 rfl))
  obtain ⟨front, c, rfl⟩ := eq_nil_or_concat' part |>.resolve_left hpart
  have hc : c ≠ '/' := by
    rintro rfl
    rw [hletters '/' (mem_append_right _ (mem_singleton.2 rfl))] at hslash
    cases hslash
  constructor
  · exact ⟨c, by simp, hc⟩
  · rw [flatMap_append, flatMap_singleton, ← cons_append, ← append_assoc, List.getLast?_concat]
    simpa using hc

theorem s3Path_slash (h : ValidPath path) :
    s3Path root (path ++ ['/']) = s3Path root path ++ ['/'] := by
  obtain ⟨c, hc, hne⟩ := (letters_of_validPath h).1
  unfold s3Path
  rw [← append_assoc, dropWhile_append, if_neg]
  rw [List.isEmpty_iff, dropWhile_eq_nil_iff]
  intro hall
  exact hne (by simpa using hall c (mem_append_right _ hc))

/-- A listing is empty if both parts are. -/
theorem items_eq_nil_iff {items} :
    items.filterMap Item.content? = [] ∧ items.filterMap Item.commonPrefix? = [] ↔ items = [] := by
  constructor
  · rintro ⟨hcontents, hcommons⟩
    rw [eq_nil_iff_forall_not_mem]
    intro item hitem
    cases item with
    | content o => cases filterMap_eq_nil_iff.1 hcontents _ hitem
    | commonPrefix p => cases filterMap_eq_nil_iff.1 hcommons _ hitem
  · rintro rfl
    exact ⟨rfl, rfl⟩

/-- **`List` of a valid path succeeds exactly when there is a key below the path.** -/
theorem list_spec (root : Key) (B : Bucket) (hfault : ∀ i, svc.listFault i = none)
    (hpath : ValidPath path) :
    ∃ r, list svc root B path = some r ∧
      ((∃ names, r = .ok names) ↔ ∃ o ∈ B.objects, s3Path root path ++ ['/'] <+: o.key) := by
  have hlast := (letters_of_validPath hpath).2
  have hroot : path ≠ ['/'] := by
    rintro rfl
    exact hlast rfl
  have hlen : (rollUp (s3Path root path ++ ['/'])
      (listing B (s3Path root path ++ ['/']))).length ≤ B.objects.length :=
    length_rollUp_le.trans (length_filter_le _ _)
  have hpages := listPages_spec root path [] [] hfault (i := 0) (Nat.zero_le _)
    (Nat.lt_succ_of_le hlen)
  have hnil : rollUp (s3Path root path ++ ['/']) (listing B (s3Path root path ++ ['/'])) = [] ↔
      ∀ o ∈ B.objects, ¬ s3Path root path ++ ['/'] <+: o.key := by
    rw [rollUp_eq_nil_iff, eq_nil_iff_forall_not_mem]
    simp only [mem_listing, not_and]
  refine ⟨_, by rw [list, if_pos ⟨hroot, hlast⟩, s3Path_slash hpath, hpages]; rfl, ?_⟩
  simp only [nil_append, drop_zero, map_eq_nil_iff, items_eq_nil_iff, hroot,
    ne_eq, not_false_iff, true_and, hnil]
  split
  · next hnone =>
    refine iff_of_false (fun ⟨names, h⟩ => (by cases h)) ?_
    rintro ⟨o, ho, hbelow⟩
    exact hnone o ho hbelow
  · next hsome =>
    refine iff_of_true ⟨_, rfl⟩ ?_
    push Not at hsome
    exact hsome

/-! ## Agreement -/

/-- `Stat` says missing exactly when no object is at the path or below it; a file, with its size,
exactly when an object is there; a directory exactly when `List` succeeds and no object is at the
path. -/
structure Hierarchical (svc : Service) (root : Key) (B : Bucket) (path : Key) : Prop where
  missing : stat svc root B path = .error (.pathNotFound path) ↔
    ∀ o ∈ B.objects, ¬ Under (s3Path root path) o.key
  file : ∀ size, (∃ modTime, stat svc root B path = .ok ⟨path, false, size, modTime⟩) ↔
    ∃ o ∈ B.objects, o.key = s3Path root path ∧ o.size = size
  directory : stat svc root B path = .ok ⟨path, true, 0, 0⟩ ↔
    (∃ o ∈ B.objects, s3Path root path ++ ['/'] <+: o.key) ∧
      ∀ o ∈ B.objects, o.key ≠ s3Path root path
  agreement : (∃ info, stat svc root B path = .ok info ∧ info.isDir = true) ↔
    (∃ names, list svc root B path = some (.ok names)) ∧ ∀ o ∈ B.objects, o.key ≠ s3Path root path

/-- **`Stat` of a valid path is right, and agrees with `List`, exactly when an object is at the path
or below it, or no key has the path as a string prefix.** -/
theorem stat_hierarchical_iff (hfault : ∀ i, svc.listFault i = none) (hpath : ValidPath path) :
    Hierarchical svc root B path ↔
      (∃ o ∈ B.objects, Under (s3Path root path) o.key) ∨
        ∀ o ∈ B.objects, ¬ s3Path root path <+: o.key := by
  have hlist : (∃ names, list svc root B path = some (.ok names)) ↔
      ∃ o ∈ B.objects, s3Path root path ++ ['/'] <+: o.key := by
    obtain ⟨r, hr, hiff⟩ := list_spec root B hfault hpath
    rw [← hiff, hr]
    simp
  constructor
  · intro h
    by_contra hcon
    push Not at hcon
    obtain ⟨hunder, x, hx, hstarts⟩ := hcon
    have hdir := stat_directory (hfault 0) hx hstarts fun o ho hkey => hunder o ho (.inl hkey)
    rw [h.missing.2 hunder] at hdir
    cases hdir
  · intro hcond
    by_cases hobject : ∃ x ∈ B.objects, x.key = s3Path root path
    · obtain ⟨x, hx, hkey⟩ := hobject
      have hstat := stat_file (hfault 0) hx hkey
      refine ⟨iff_of_false ?_ fun h => h x hx (.inl hkey), fun size => ⟨?_, ?_⟩,
        iff_of_false ?_ fun h => h.2 x hx hkey, iff_of_false ?_ fun h => h.2 x hx hkey⟩
      · rw [hstat]
        exact nofun
      · rintro ⟨modTime, hsize⟩
        rw [hstat] at hsize
        cases hsize
        exact ⟨x, hx, hkey, rfl⟩
      · rintro ⟨o, ho, hokey, rfl⟩
        exact ⟨o.modTime, stat_file (hfault 0) ho hokey⟩
      · rw [hstat]
        exact nofun
      · rintro ⟨info, hinfo, hdir⟩
        rw [hstat] at hinfo
        cases hinfo
        cases hdir
    · push Not at hobject
      have hfile : ∀ size, ¬ ∃ o ∈ B.objects, o.key = s3Path root path ∧ o.size = size := by
        rintro size ⟨o, ho, hkey, -⟩
        exact hobject o ho hkey
      by_cases hbelow : ∃ x ∈ B.objects, s3Path root path ++ ['/'] <+: x.key
      · obtain ⟨x, hx, hslash⟩ := hbelow
        have hunder : Under (s3Path root path) x.key := .inr hslash
        have hstat := stat_directory (hfault 0) hx hunder.starts hobject
        refine ⟨iff_of_false ?_ fun h => h x hx hunder, fun size => iff_of_false ?_ (hfile size),
          iff_of_true hstat ⟨⟨x, hx, hslash⟩, hobject⟩,
          iff_of_true ⟨_, hstat, rfl⟩ ⟨hlist.2 ⟨x, hx, hslash⟩, hobject⟩⟩
        · rw [hstat]
          exact nofun
        · rintro ⟨modTime, hsize⟩
          rw [hstat] at hsize
          cases hsize
      · have hunder : ∀ o ∈ B.objects, ¬ Under (s3Path root path) o.key := by
          rintro o ho (hkey | hslash)
          · exact hobject o ho hkey
          · exact hbelow ⟨o, ho, hslash⟩
        have hstat : stat svc root B path = .error (.pathNotFound path) := by
          refine stat_missing (hfault 0) (hcond.resolve_left ?_)
          rintro ⟨o, ho, h⟩
          exact hunder o ho h
        refine ⟨iff_of_true hstat hunder, fun size => iff_of_false ?_ (hfile size),
          iff_of_false ?_ fun h => hbelow h.1,
          iff_of_false ?_ fun h => hbelow (hlist.1 h.1)⟩
        · rintro ⟨modTime, hsize⟩
          rw [hstat] at hsize
          cases hsize
        · rw [hstat]
          exact nofun
        · rintro ⟨info, hinfo, -⟩
          rw [hstat] at hinfo
          cases hinfo

/-- The path of the tag `v1` in the bucket of its sibling. -/
theorem validPath_v1 : ValidPath "/docker/tags/v1".toList := by
  have hparts : ["docker".toList, "tags".toList, "v1".toList].all
      (fun part => !part.isEmpty && part.all pathLetter) = true := by decide
  refine ⟨["docker".toList, "tags".toList, "v1".toList], cons_ne_nil _ _, ?_, rfl⟩
  intro part hpart
  have hletters := all_eq_true.1 hparts part hpart
  rw [Bool.and_eq_true, Bool.not_eq_true', isEmpty_eq_false_iff, all_eq_true] at hletters
  exact hletters

/-- With the tags `v1` and `v1-rc` in the bucket, `Stat` of `v1` is right. -/
theorem stat_tagged : Hierarchical Service.full [] taggedBucket "/docker/tags/v1".toList :=
  (stat_hierarchical_iff (fun _ => rfl) validPath_v1).2
    (.inl ⟨⟨"docker/tags/v1/current/link".toList, 71, 0⟩, by decide, .inr (by decide)⟩)

/-- With only the tag `v1-rc` in the bucket, `Stat` tells that `v1` is a directory, while `List`
does not find it. -/
theorem sibling_taken_for_directory : ∃ B : Bucket,
    (∀ o ∈ B.objects, ¬ Under (s3Path [] "/docker/tags/v1".toList) o.key) ∧
      stat Service.full [] B "/docker/tags/v1".toList = .ok ⟨"/docker/tags/v1".toList, true, 0, 0⟩ ∧
      list Service.full [] B "/docker/tags/v1".toList =
        some (.error (.pathNotFound "/docker/tags/v1".toList)) := by
  refine ⟨⟨[⟨"docker/tags/v1-rc/current/link".toList, 71, 0⟩], pairwise_singleton _ _⟩,
    ?_, rfl, rfl⟩
  intro o ho
  rw [mem_singleton.1 ho]
  unfold Under
  decide

end ContainerRegistry.Analysis.S3
