import ContainerRegistry.Model.S3Driver

/-!
# What an S3 deletion deletes

`Delete` lists the keys with a string prefix and stops at the first one that is not a subpath. So it
takes the keys below the path only if no key goes on with a letter before the slash. A listing that
fails is taken for a missing path.
-/

namespace ContainerRegistry.Analysis.S3

open List

open Library Model.S3

variable {svc : Service} {B : Bucket} {s : Key}

/-! ## Paths and keys -/

def Under (s k : Key) : Prop := k = s ∨ s ++ ['/'] <+: k

def listing (B : Bucket) (s : Key) : List Object := B.listed s none

def reached (B : Bucket) (s : Key) : List Object := (listing B s).takeWhile (isSubpath s)

/-- Some key goes on behind the path with a letter before the slash. -/
def SiblingBefore (B : Bucket) (s : Key) : Prop := ∃ o ∈ B.objects, ∃ c < '/', s ++ [c] <+: o.key

theorem listing_sorted : SortedBy Object.key (listing B s) := B.sorted.filter _

variable {o : Object}

theorem mem_listing : o ∈ listing B s ↔ o ∈ B.objects ∧ s <+: o.key := by
  simp [listing, Bucket.listed]

theorem Under.starts {k} (h : Under s k) : s <+: k := by
  rcases h with rfl | h
  · exact prefix_rfl
  · exact (prefix_append s ['/']).trans h

/-- The filter keeps keys under the path. -/
theorem isSubpath_iff (h : s <+: o.key) : isSubpath s o = true ↔ Under s o.key := by
  unfold isSubpath Under
  rw [← next_eq_none_iff h, ← next_eq_some_iff h]
  cases hnext : o.key[s.length]? with
  | none =>
    have hlen := List.getElem?_eq_none_iff.1 hnext
    simp [hlen]
  | some c =>
    have hlen : s.length < o.key.length := (List.getElem?_eq_some_iff.1 hnext).1
    simp [hlen]

/-- **What the scan takes**: the key of the path, and those below it if no key goes on with a letter
before the slash. -/
theorem mem_reached_iff :
    o ∈ reached B s ↔ o ∈ B.objects ∧ (o.key = s ∨ s ++ ['/'] <+: o.key ∧ ¬ SiblingBefore B s) := by
  unfold reached
  rw [listing_sorted.mem_takeWhile_iff, mem_listing]
  constructor
  · rintro ⟨⟨hmem, hpre⟩, hsub, hbefore⟩
    refine ⟨hmem, ((isSubpath_iff hpre).1 hsub).imp id fun hbelow => ⟨hbelow, ?_⟩⟩
    rintro ⟨y, hy, c, hc, hyc⟩
    have hys : s <+: y.key := (prefix_append s [c]).trans hyc
    have hnext := (next_eq_some_iff hys).2 hyc
    have hlt := lt_of_next_lt hys hpre hnext ((next_eq_some_iff hpre).2 hbelow) hc
    have hunder := (isSubpath_iff hys).1 (hbefore y (mem_listing.2 ⟨hy, hys⟩) hlt)
    rcases hunder with hkey | hslash
    · rw [hkey] at hnext
      simp at hnext
    · rw [(next_eq_some_iff hys).2 hslash] at hnext
      cases hnext
      exact lt_irrefl _ hc
  · rintro ⟨hmem, hkey⟩
    have hunder : Under s o.key := hkey.imp id And.left
    refine ⟨⟨hmem, hunder.starts⟩, (isSubpath_iff hunder.starts).2 hunder, fun y hy hlt => ?_⟩
    obtain ⟨hy, hys⟩ := mem_listing.1 hy
    rcases hkey with hkey | ⟨hbelow, hnone⟩
    · rw [hkey] at hlt
      exact absurd hlt (not_lt_of_starts hys)
    rw [isSubpath_iff hys]
    unfold Under
    rw [← next_eq_none_iff hys, ← next_eq_some_iff hys]
    cases hnext : y.key[s.length]? with
    | none => exact .inl rfl
    | some c =>
      right
      have hslash := (next_eq_some_iff hunder.starts).2 hbelow
      rcases lt_trichotomy c '/' with hc | rfl | hc
      · exact absurd ⟨y, hy, c, hc, (next_eq_some_iff hys).1 hnext⟩ hnone
      · rfl
      · exact absurd (lt_of_next_lt hunder.starts hys hslash hnext hc) (lt_asymm hlt)

theorem under_of_mem_reached (h : o ∈ reached B s) : Under s o.key :=
  (mem_reached_iff.1 h).2.imp id And.left

/-- **When the scan takes all keys at the path and below it.** -/
theorem under_reached_iff :
    (∀ o ∈ B.objects, Under s o.key → o ∈ reached B s) ↔
      ¬ (SiblingBefore B s ∧ ∃ o ∈ B.objects, s ++ ['/'] <+: o.key) := by
  constructor
  · rintro h ⟨hbefore, o, ho, hbelow⟩
    rcases (mem_reached_iff.1 (h o ho (.inr hbelow))).2 with hkey | ⟨-, hnot⟩
    · rw [hkey] at hbelow
      have hlen := hbelow.length_le
      rw [length_append, length_singleton] at hlen
      omega
    · exact hnot hbefore
  · intro hsib o ho hunder
    exact mem_reached_iff.2
      ⟨ho, hunder.imp id fun hbelow => ⟨hbelow, fun hbefore => hsib ⟨hbefore, o, ho, hbelow⟩⟩⟩

theorem key_mem_iff {l : List Object} (hl : ∀ x ∈ l, x ∈ B.objects) (ho : o ∈ B.objects) :
    o.key ∈ l.map Object.key ↔ o ∈ l := by
  rw [mem_map]
  constructor
  · rintro ⟨x, hx, hkey⟩
    exact B.sorted.eq_of_key (hl x hx) ho hkey ▸ hx
  · exact fun h => ⟨o, h, rfl⟩

/-! ## The loop that lists -/

def offset (svc : Service) : ℕ → ℕ
  | 0 => 0
  | i + 1 => offset svc i + svc.pageSize i

/-- The request is made, unless one before it fails: the first, and one with only subpaths before
its keys. -/
def Asked (svc : Service) (B : Bucket) (s : Key) (i : ℕ) : Prop :=
  i = 0 ∨ offset svc i ≤ (reached B s).length ∧ offset svc i < (listing B s).length

theorem offset_mono {i j} (h : i ≤ j) : offset svc i ≤ offset svc j := by
  induction h with
  | refl => exact le_rfl
  | step _ ih => exact ih.trans (Nat.le_add_right _ _)

variable {startAfter : Option Key} {n : ℕ}

theorem listObjectsV2_contents :
    (listObjectsV2 B s false startAfter 0 n).contents = (B.listed s startAfter).take n := by
  simp [listObjectsV2, ← map_take, filterMap_map, Function.comp_def, Item.content?]

theorem listObjectsV2_isTruncated :
    (listObjectsV2 B s false startAfter 0 n).isTruncated =
      decide (n < (B.listed s startAfter).length) := by
  simp [listObjectsV2]

/-- A page starts after the last. -/
theorem listed_after {last} (h : ((listing B s).take n).getLast? = some last) :
    B.listed s (some last.key) = (listing B s).drop n := by
  have hsorted : SortedBy Object.key ((listing B s).take n ++ (listing B s).drop n) := by
    rw [take_append_drop]
    exact listing_sorted
  have hafter := hsorted.filter_after h
  rw [take_append_drop] at hafter
  rw [← hafter]
  simp only [listing, Bucket.listed, filter_filter]
  congr 1
  funext o
  rw [Bool.eq_iff_iff]
  simp [and_comm]

theorem reached_ge (hn : n ≤ (listing B s).length)
    (h : ∀ o ∈ (listing B s).take n, isSubpath s o = true) : n ≤ (reached B s).length := by
  unfold reached
  rw [← take_append_drop n (listing B s), takeWhile_append_of_pos h, length_append, length_take]
  omega

theorem subpath_of_mem_take (hn : n ≤ (reached B s).length) (ho : o ∈ (listing B s).take n) :
    isSubpath s o = true := by
  have hinit : (listing B s).take n <+: reached B s := by
    refine prefix_of_prefix_length_le ( take_prefix _ _) ( takeWhile_prefix (isSubpath s)) ?_
    rw [length_take]
    exact (min_le_left _ _).trans hn
  exact mem_takeWhile_imp (hinit.subset ho)

def page (svc : Service) (B : Bucket) (s : Key) (i : ℕ) : List Object :=
  ((listing B s).drop (offset svc i)).take (svc.pageSize i)

theorem take_offset_succ {i} : (listing B s).take (offset svc (i + 1)) =
    (listing B s).take (offset svc i) ++ page svc B s i := by
  rw [offset, take_add, page]

theorem offset_le_of_all {i} (hoffset : offset svc i ≤ (reached B s).length)
    (hlen : offset svc (i + 1) ≤ (listing B s).length)
    (hall : (page svc B s i).all (isSubpath s) = true) :
    offset svc (i + 1) ≤ (reached B s).length := by
  refine reached_ge hlen fun o ho => ?_
  rw [take_offset_succ] at ho
  rcases mem_append.1 ho with ho | ho
  · exact subpath_of_mem_take hoffset ho
  · exact all_eq_true.1 hall o ho

/-- INTERNAL: after a page with a key that is no subpath, and after the last, the loop has what the
scan takes. -/
theorem reached_of_stop {i} (hoffset : offset svc i ≤ (reached B s).length)
    (hstop : (page svc B s i).all (isSubpath s) = true →
      (listing B s).length ≤ offset svc (i + 1)) :
    (listing B s).take (offset svc i) ++ (page svc B s i).takeWhile (isSubpath s) =
      reached B s := by
  have hscan : reached B s = (listing B s).take (offset svc i) ++
      ((listing B s).drop (offset svc i)).takeWhile (isSubpath s) := by
    unfold reached
    rw [← takeWhile_append_of_pos fun o ho => subpath_of_mem_take hoffset ho, take_append_drop]
  rw [hscan]
  congr 1
  rw [← take_append_drop (svc.pageSize i) ((listing B s).drop (offset svc i))]
  change _ = List.takeWhile (isSubpath s) (page svc B s i ++ _)
  rw [takeWhile_append]
  split
  · next hlen =>
    have hpage : (page svc B s i).takeWhile (isSubpath s) = page svc B s i :=
      ( takeWhile_prefix _).eq_of_length hlen
    have hend : (listing B s).length ≤ offset svc (i + 1) :=
      hstop (all_eq_true.2 (takeWhile_eq_self_iff.1 hpage))
    have hrest : ((listing B s).drop (offset svc i)).drop (svc.pageSize i) = [] := by
      rw [drop_drop, drop_eq_nil_iff]
      exact hend
    rw [hpage, hrest, takeWhile_nil, append_nil]
  · rfl

/-- No page is asked for after the end. -/
theorem not_asked_of_stop {i j} (hij : i < j)
    (hstop : (page svc B s i).all (isSubpath s) = true →
      (listing B s).length ≤ offset svc (i + 1)) : ¬ Asked svc B s j := by
  rintro (rfl | ⟨hreached, hlen⟩)
  · exact Nat.not_lt_zero _ hij
  · have hmono : offset svc (i + 1) ≤ offset svc j := offset_mono hij
    have hall : (page svc B s i).all (isSubpath s) = true := by
      rw [all_eq_true]
      intro o ho
      refine subpath_of_mem_take (hmono.trans hreached) ?_
      rw [take_offset_succ]
      exact mem_append_right _ ho
    have := hstop hall
    omega

/-- **The loop lists what the scan takes, unless there is nothing or one of its requests
fails.** -/
theorem listToDelete_spec (svc : Service) (fuel : ℕ) {i}
    (hoffset : offset svc i ≤ (reached B s).length)
    (hstart : B.listed s startAfter = (listing B s).drop (offset svc i))
    (hleft : i = 0 ∨ offset svc i < (listing B s).length)
    (hfuel : (listing B s).length < fuel + offset svc i) :
    ∃ r, listToDelete svc B s fuel i startAfter
        (((listing B s).take (offset svc i)).map Object.key) = some r ∧
      (r = none ↔ listing B s = [] ∨
        ∃ j, i ≤ j ∧ Asked svc B s j ∧ (svc.listFault j).isSome = true) ∧
      ∀ keys, r = some keys → keys = (reached B s).map Object.key := by
  induction fuel generalizing i startAfter with
  | zero =>
    have hle : (reached B s).length ≤ (listing B s).length :=
      ( takeWhile_prefix (isSubpath s)).length_le
    omega
  | succ fuel ih =>
    have hasked : Asked svc B s i := hleft.imp id fun h => ⟨hoffset, h⟩
    have hcontents : (listObjectsV2 B s false startAfter 0 (svc.pageSize i)).contents =
        page svc B s i := by
      rw [listObjectsV2_contents, hstart, page]
    have htruncated : (listObjectsV2 B s false startAfter 0 (svc.pageSize i)).isTruncated = true ↔
        offset svc (i + 1) < (listing B s).length := by
      rw [listObjectsV2_isTruncated, hstart, decide_eq_true_eq, length_drop, offset]
      omega
    rw [listToDelete]
    by_cases hfault : (svc.listFault i).isSome = true
    · rw [if_pos hfault]
      exact ⟨none, rfl, iff_of_true rfl (.inr ⟨i, le_rfl, hasked, hfault⟩), nofun⟩
    rw [if_neg hfault]
    simp only [hcontents]
    cases hlast : (page svc B s i).getLast? with
    | none =>
      -- only the first page can be empty
      have hend : (listing B s).length ≤ offset svc i := by
        have hnil := List.getLast?_eq_none_iff.1 hlast
        have hpos := svc.pageSize_pos i
        rw [page, take_eq_nil_iff, drop_eq_nil_iff] at hnil
        omega
      have hnil : listing B s = [] := by
        rcases hleft with rfl | hleft
        · exact length_eq_zero_iff.1 (Nat.le_zero.1 hend)
        · omega
      exact ⟨none, rfl, iff_of_true rfl (.inl hnil), nofun⟩
    | some last =>
      have hmem : last ∈ listing B s :=
        mem_of_mem_drop (mem_of_mem_take (List.mem_of_getLast? hlast))
      by_cases hgo : ((page svc B s i).all (isSubpath s) && (listObjectsV2 B s false startAfter 0
          (svc.pageSize i)).isTruncated) = true
      · simp only [hgo, if_true]
        obtain ⟨hall, hmore⟩ := Bool.and_eq_true_iff.1 hgo
        have hmore := htruncated.1 hmore
        have hself : (page svc B s i).takeWhile (isSubpath s) = page svc B s i :=
          takeWhile_eq_self_iff.2 (all_eq_true.1 hall)
        have hafter : B.listed s (some last.key) = (listing B s).drop (offset svc (i + 1)) := by
          refine listed_after ?_
          rw [take_offset_succ, List.getLast?_append, hlast]
          rfl
        have hpos := svc.pageSize_pos i
        obtain ⟨r, hr, hnone, hkeys⟩ := ih (offset_le_of_all hoffset hmore.le hall) hafter
          (.inr hmore) (by rw [offset]; omega)
        rw [take_offset_succ, map_append] at hr
        rw [hself]
        refine ⟨r, hr, hnone.trans (or_congr_right ?_), hkeys⟩
        constructor
        · rintro ⟨j, hj, hrest⟩
          exact ⟨j, (Nat.le_succ i).trans hj, hrest⟩
        · rintro ⟨j, hj, hj', hjfault⟩
          refine ⟨j, Nat.lt_of_le_of_ne hj ?_, hj', hjfault⟩
          rintro rfl
          exact hfault hjfault
      · simp only [hgo]
        have hstop : (page svc B s i).all (isSubpath s) = true →
            (listing B s).length ≤ offset svc (i + 1) := by
          intro hall
          by_contra hlt
          exact hgo (Bool.and_eq_true_iff.2 ⟨hall, htruncated.2 (not_le.1 hlt)⟩)
        refine ⟨_, rfl, iff_of_false nofun ?_, ?_⟩
        · rintro (hnil | ⟨j, hj, hj', hjfault⟩)
          · rw [hnil] at hmem
            cases hmem
          · rcases Nat.eq_or_lt_of_le hj with rfl | hlt
            · exact hfault hjfault
            · exact not_asked_of_stop hlt hstop hj'
        · intro keys hkeys
          cases hkeys
          rw [← map_append, reached_of_stop hoffset hstop]

theorem mem_deleteObjects {refused : Key → Bool} {keys} :
    o ∈ (B.deleteObjects refused keys).objects ↔
      o ∈ B.objects ∧ (o.key ∈ keys → refused o.key = true) := by
  simp [Bucket.deleteObjects, imp_iff_not_or]

theorem length_le_batches (keys : ℕ) : keys ≤ batches keys * deleteMax := by
  have := Nat.div_add_mod (keys + deleteMax - 1) deleteMax
  have := Nat.mod_lt (keys + deleteMax - 1) (show 0 < deleteMax by decide)
  unfold batches
  rw [Nat.mul_comm]
  omega

/-- **The loop deletes the keys that are not refused, unless one of its requests fails.** -/
theorem deleteBatches_spec (svc : Service) {n i keys B} (hn : keys.length ≤ n * deleteMax) :
    (∀ path, (deleteBatches svc n i keys B).1 ≠ some (.pathNotFound path)) ∧
      ((deleteBatches svc n i keys B).1 = none ↔
        ∀ j, i ≤ j → j < i + n → svc.deleteFault j = none) ∧
      ((deleteBatches svc n i keys B).1 = none → ∀ o,
        o ∈ (deleteBatches svc n i keys B).2.objects ↔
          o ∈ B.objects ∧ (o.key ∈ keys → svc.refused o.key = true)) := by
  induction n generalizing i keys B with
  | zero =>
    have hnil : keys = [] := by simpa using hn
    subst hnil
    refine ⟨nofun, iff_of_true rfl fun j hj hj' => ?_, fun _ o => ?_⟩
    · omega
    · simp [deleteBatches]
  | succ n ih =>
    rw [deleteBatches]
    cases hfault : svc.deleteFault i with
    | some f =>
      refine ⟨nofun, iff_of_false nofun fun hall => ?_, nofun⟩
      rw [hall i le_rfl (by omega)] at hfault
      cases hfault
    | none =>
      have hrest : (keys.drop deleteMax).length ≤ n * deleteMax := by
        rw [length_drop, Nat.sub_le_iff_le_add, ← Nat.succ_mul]
        exact hn
      obtain ⟨hpath, hnone, hmem⟩ := ih (i := i + 1) hrest
        (B := B.deleteObjects svc.refused (keys.take deleteMax))
      refine ⟨hpath, hnone.trans ⟨fun hall j hj hj' => ?_, fun hall j hj hj' => ?_⟩, fun h o => ?_⟩
      · rcases Nat.eq_or_lt_of_le hj with rfl | hlt
        · exact hfault
        · exact hall j hlt (by omega)
      · exact hall j (by omega) (by omega)
      · have hkeys : o.key ∈ keys ↔
            o.key ∈ keys.take deleteMax ∨ o.key ∈ keys.drop deleteMax := by
          rw [← mem_append, take_append_drop]
        rw [hmem h o, mem_deleteObjects, hkeys, or_imp, and_assoc]

/-! ## Exactness -/

/-- Without an error the deletion has deleted the key of the path and those below it and nothing
else, and it reports the path as missing only if there is no such key. -/
structure Exact (B : Bucket) (s path : Key) (out : Option Error × Bucket) : Prop where
  deleted : out.1 = none → ∀ o, o ∈ out.2.objects ↔ o ∈ B.objects ∧ ¬ Under s o.key
  notFound : out.1 = some (.pathNotFound path) → ∀ o ∈ B.objects, ¬ Under s o.key

def ListingFails (svc : Service) (B : Bucket) (s : Key) : Prop :=
  ∃ i, Asked svc B s i ∧ (svc.listFault i).isSome = true

/-- A deletion request that `Delete` would make fails. -/
def DeletingFails (svc : Service) (B : Bucket) (s : Key) : Prop :=
  ∃ i < batches (reached B s).length, (svc.deleteFault i).isSome = true

theorem listToDelete_start (svc : Service) (B : Bucket) (s : Key) :
    ∃ r, listToDelete svc B s (B.objects.length + 1) 0 none [] = some r ∧
      (r = none ↔ listing B s = [] ∨ ListingFails svc B s) ∧
      ∀ keys, r = some keys → keys = (reached B s).map Object.key := by
  have hlen : (listing B s).length ≤ B.objects.length := length_filter_le _ _
  obtain ⟨r, hr, hnone, hkeys⟩ := listToDelete_spec svc (B.objects.length + 1)
    (i := 0) (Nat.zero_le _) (show B.listed s none = _ from rfl) (.inl rfl)
    (by rw [offset]; omega)
  refine ⟨r, hr, hnone.trans (or_congr_right ?_), hkeys⟩
  simp [ListingFails]

/-- INTERNAL: exactly the reached keys are deleted. -/
theorem exact_of_deleted_iff {out : Option Error × Bucket} {path : Key} (hnone : out.1 = none)
    (hmem : ∀ o, o ∈ out.2.objects ↔ o ∈ B.objects ∧
      (o.key ∈ (reached B s).map Object.key → svc.refused o.key = true)) :
    Exact B s path out ↔
      ∀ o ∈ B.objects, Under s o.key → o ∈ reached B s ∧ svc.refused o.key = false := by
  have hkey : ∀ o ∈ B.objects, o.key ∈ (reached B s).map Object.key ↔ o ∈ reached B s :=
    fun o ho => key_mem_iff (fun x hx => (mem_reached_iff.1 hx).1) ho
  constructor
  · intro hexact o ho hunder
    by_contra hcon
    have hleft : o ∈ out.2.objects := by
      refine (hmem o).2 ⟨ho, fun hreached => ?_⟩
      rw [hkey o ho] at hreached
      by_contra href
      exact hcon ⟨hreached, Bool.eq_false_iff.2 href⟩
    exact ((hexact.deleted hnone o).1 hleft).2 hunder
  · intro h
    refine ⟨fun _ o => ?_, fun hcon => by rw [hnone] at hcon; cases hcon⟩
    rw [hmem o]
    refine and_congr_right fun ho => ?_
    rw [hkey o ho]
    constructor
    · intro href hunder
      obtain ⟨hreached, hfalse⟩ := h o ho hunder
      rw [href hreached] at hfalse
      cases hfalse
    · intro hunder hreached
      exact absurd (under_of_mem_reached hreached) hunder

/-- A bucket with the tags `v1` and `v1-rc`. -/
def taggedBucket : Bucket where
  objects := [⟨"docker/tags/v1-rc/current/link".toList, 71, 0⟩,
    ⟨"docker/tags/v1/current/link".toList, 71, 0⟩]
  sorted := by
    unfold SortedBy
    decide

end ContainerRegistry.Analysis.S3
