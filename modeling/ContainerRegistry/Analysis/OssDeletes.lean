import ContainerRegistry.Model.OssDriver
import ContainerRegistry.Analysis.S3Deletes

/-!
# What an OSS deletion reports

`Delete` scans the keys with the path as a string prefix, page by page, and takes a multi-delete
that fails for the end of its work.
-/

namespace ContainerRegistry.Analysis.Oss

open List

open Library Model.Oss Analysis.S3
open Model.S3 hiding delete

variable {svc : Service} {B B' : Bucket} {s path : Key} {n : ℕ} {o : Object}

/-- Without an error, the key of the path and the keys below it are deleted, and nothing else. -/
def Truthful (B : Bucket) (s : Key) (out : Option Error × Bucket) : Prop :=
  out.1 = none → ∀ o, o ∈ out.2.objects ↔ o ∈ B.objects ∧ ¬ Under s o.key

/-- The `n`-th multi-delete is sent. -/
structure Sent (svc : Service) (B : Bucket) (s : Key) (n : ℕ) : Prop where
  scanned : offset svc n ≤ (reached B s).length
  left : offset svc n < (listing B s).length
  listed : ∀ i ≤ n, svc.listFault i = none
  deleted : ∀ i < n, svc.deleteFault i = none

def scan (svc : Service) (B : Bucket) (s : Key) (n : ℕ) : List Object :=
  (page svc B s n).takeWhile (isSubpath s)

/-- From the `n`-th multi-delete on, one that fails has deleted all that is left, and no key is
hidden. -/
def Reliable (svc : Service) (B : Bucket) (s : Key) (n : ℕ) : Prop :=
  ∀ m, n ≤ m → Sent svc B s m →
    (svc.deleteFault m ≠ none → ∀ o ∈ B.objects, Under s o.key →
      o ∈ (listing B s).take (offset svc m) ∨ o ∈ scan svc B s m ∧ svc.refused o.key = false) ∧
    (svc.deleteFault m = none → (page svc B s m).all (isSubpath s) = false →
      ¬ (SiblingBefore B s ∧ ∃ o ∈ B.objects, s ++ ['/'] <+: o.key))

/-- The bucket after the pages before the `n`-th have been deleted. -/
def Left (svc : Service) (B : Bucket) (s : Key) (n : ℕ) (B' : Bucket) : Prop :=
  ∀ o, o ∈ B'.objects ↔ o ∈ B.objects ∧ o ∉ (listing B s).take (offset svc n)

theorem mem_of_mem_listing (h : o ∈ listing B s) : o ∈ B.objects := (mem_listing.1 h).1

theorem Left.listing_eq (h : Left svc B s n B') :
    listing B' s = (listing B s).drop (offset svc n) := by
  refine listing_sorted.eq_of_mem_iff (listing_sorted.sublist (drop_sublist _ _)) fun o => ?_
  have hdisjoint := disjoint_take_drop (listing_sorted (B := B) (s := s)).nodup
    (Nat.le_refl (offset svc n))
  have hsplit : o ∈ listing B s ↔ o ∈ (listing B s).take (offset svc n) ∨
      o ∈ (listing B s).drop (offset svc n) := by
    rw [← mem_append, take_append_drop]
  rw [mem_listing, h o, and_right_comm, ← mem_listing, hsplit]
  exact ⟨fun hx => hx.1.resolve_left hx.2, fun hx => ⟨.inr hx, fun ht => hdisjoint ht hx⟩⟩

/-- INTERNAL: what a multi-delete of keys of the `n`-th page leaves. -/
theorem Left.mem_deleteObjects (h : Left svc B s n B') (refused : Key → Bool) {l}
    (hl : l ⊆ page svc B s n) :
    o ∈ (B'.deleteObjects refused (l.map Object.key)).objects ↔ o ∈ B.objects ∧
      o ∉ (listing B s).take (offset svc n) ∧ (o ∈ l → refused o.key = true) := by
  rw [S3.mem_deleteObjects, h o, and_assoc]
  refine and_congr_right fun ho => and_congr_right fun _ => ?_
  rw [key_mem_iff (B := B) (fun x hx => ?_) ho]
  exact mem_of_mem_listing (mem_of_mem_drop (mem_of_mem_take (hl hx)))

theorem Left.next (h : Left svc B s n B') : Left svc B s (n + 1)
    (B'.deleteObjects (fun _ => false) ((page svc B s n).map Object.key)) := by
  intro o
  rw [h.mem_deleteObjects _ (List.Subset.refl _), take_offset_succ, mem_append, not_or]
  simp

/-- INTERNAL: a deletion of what the scan has taken leaves nothing else out. -/
theorem truthful_iff {B'' : Bucket} {l : List Object} (hl : ∀ o ∈ l, Under s o.key)
    (hmem : ∀ o, o ∈ B''.objects ↔ o ∈ B.objects ∧ o ∉ l) :
    Truthful B s (none, B'') ↔ ∀ o ∈ B.objects, Under s o.key → o ∈ l := by
  constructor
  · intro h o ho hunder
    by_contra hcon
    exact ((h rfl o).1 ((hmem o).2 ⟨ho, hcon⟩)).2 hunder
  · intro h _ o
    rw [hmem o]
    exact and_congr_right fun ho => not_congr ⟨hl o, h o ho⟩

theorem under_of_subpath (ho : o ∈ listing B s) (hsub : isSubpath s o = true) : Under s o.key :=
  (isSubpath_iff (mem_listing.1 ho).2).1 hsub

/-- INTERNAL: no multi-delete is sent from the `n`-th on. -/
theorem reliable_of_not_sent (h : ∀ m, n ≤ m → ¬ Sent svc B s m) : Reliable svc B s n :=
  fun m hm hsent => absurd hsent (h m hm)

/-- INTERNAL: the `n`-th multi-delete is the last. -/
theorem reliable_iff_of_last (hsent : Sent svc B s n) (h : ∀ m, n < m → ¬ Sent svc B s m) :
    Reliable svc B s n ↔
      (svc.deleteFault n ≠ none → ∀ o ∈ B.objects, Under s o.key →
        o ∈ (listing B s).take (offset svc n) ∨ o ∈ scan svc B s n ∧ svc.refused o.key = false) ∧
      (svc.deleteFault n = none → (page svc B s n).all (isSubpath s) = false →
        ¬ (SiblingBefore B s ∧ ∃ o ∈ B.objects, s ++ ['/'] <+: o.key)) := by
  refine ⟨fun hrel => hrel n le_rfl hsent, fun hrel m hm hm' => ?_⟩
  rcases Nat.eq_or_lt_of_le hm with rfl | hlt
  · exact hrel
  · exact absurd hm' (h m hlt)

/-! ## The rounds -/

/-- INTERNAL: the rounds of a delete, by induction. -/
theorem deleteRounds_spec (fuel : ℕ) (hleft : Left svc B s n B')
    (hscanned : ∀ o ∈ (listing B s).take (offset svc n), isSubpath s o = true)
    (hlisted : ∀ i < n, svc.listFault i = none) (hdeleted : ∀ i < n, svc.deleteFault i = none)
    (hfuel : (listing B s).length < fuel + min (offset svc n) (listing B s).length) :
    ∃ out, deleteRounds svc path s fuel n B' = some out ∧
      (Truthful B s out ↔ Reliable svc B s n) := by
  induction fuel generalizing n B' with
  | zero => omega
  | succ fuel ih =>
    have hcontents : (B'.listed s none).take (svc.pageSize n) = page svc B s n :=
      congrArg (List.take _) hleft.listing_eq
    have htaken : ∀ {o}, o ∈ (listing B s).take (offset svc n) → Under s o.key := fun ho =>
      under_of_subpath (mem_of_mem_take ho) (hscanned _ ho)
    rw [deleteRounds]
    cases hlist : svc.listFault n with
    | some f =>
      refine ⟨_, rfl, iff_of_true nofun (reliable_of_not_sent ?_)⟩
      intro m hm hsent
      rw [hsent.listed n hm] at hlist
      cases hlist
    | none =>
      have hlisted' : ∀ i < n + 1, svc.listFault i = none := fun i hi =>
        (Nat.lt_succ_iff_lt_or_eq.1 hi).elim (hlisted i) fun heq => heq ▸ hlist
      simp only [hcontents]
      by_cases hempty : (page svc B s n).isEmpty = true
      · -- everything with the prefix has been deleted
        have hend : (listing B s).length ≤ offset svc n := by
          have hpos := svc.pageSize_pos n
          rw [List.isEmpty_iff, page, take_eq_nil_iff, drop_eq_nil_iff] at hempty
          omega
        rw [if_pos hempty]
        refine ⟨_, rfl, iff_of_true ?_ (reliable_of_not_sent fun m hm hsent => ?_)⟩
        · by_cases hzero : n = 0
          · exact fun hcon => by simp [hzero] at hcon
          · rw [if_neg hzero]
            refine (truthful_iff (fun o ho => htaken ho) hleft).2 ?_
            intro o ho hunder
            rw [take_of_length_le hend]
            exact mem_listing.2 ⟨ho, hunder.starts⟩
        · have := hsent.left
          have hle : offset svc n ≤ offset svc m := offset_mono hm
          omega
      have hmore : offset svc n < (listing B s).length := by
        by_contra hge
        refine hempty (List.isEmpty_iff.2 ?_)
        rw [page, drop_eq_nil_of_le (not_lt.1 hge), take_nil]
      have hsent : Sent svc B s n := ⟨reached_ge hmore.le hscanned, hmore,
        fun i hi => hlisted' i (Nat.lt_succ_of_le hi), hdeleted⟩
      have hscan : scan svc B s n ⊆ page svc B s n := ( takeWhile_prefix _).subset
      rw [if_neg hempty]
      cases hdel : svc.deleteFault n with
      | some f =>
        have hmem := fun o => hleft.mem_deleteObjects svc.refused (o := o) hscan
        refine ⟨_, rfl, ?_⟩
        rw [reliable_iff_of_last hsent fun m hm hm' => (by
          rw [hm'.deleted n hm] at hdel; cases hdel), truthful_iff (l := (listing B s).take
            (offset svc n) ++ (scan svc B s n).filter fun o => !svc.refused o.key)]
        · simp [hdel]
        · intro o ho
          rcases mem_append.1 ho with ho | ho
          · exact htaken ho
          · have hscanned := (mem_filter.1 ho).1
            exact under_of_subpath (mem_of_mem_drop (mem_of_mem_take (hscan hscanned)))
              (mem_takeWhile_imp hscanned)
        · intro o
          rw [scan] at hmem
          rw [hmem o]
          simp [scan]
      | none =>
        have hdeleted' : ∀ i < n + 1, svc.deleteFault i = none := fun i hi =>
          (Nat.lt_succ_iff_lt_or_eq.1 hi).elim (hdeleted i) fun heq => heq ▸ hdel
        by_cases hall : (page svc B s n).all (isSubpath s) = true
        · -- the whole page is deleted
          have hself : (page svc B s n).takeWhile (isSubpath s) = page svc B s n :=
            takeWhile_eq_self_iff.2 (all_eq_true.1 hall)
          simp only [hself, lt_irrefl, if_false]
          have hpos := svc.pageSize_pos n
          have hscanned' : ∀ o ∈ (listing B s).take (offset svc (n + 1)),
              isSubpath s o = true := by
            intro o ho
            rw [take_offset_succ] at ho
            exact (mem_append.1 ho).elim (hscanned o) (all_eq_true.1 hall o)
          obtain ⟨out, hout, hiff⟩ := ih hleft.next hscanned' hlisted' hdeleted'
            (by rw [offset]; omega)
          refine ⟨out, hout, hiff.trans ⟨fun h m hm hm' => ?_, fun h m hm => h m (by omega)⟩⟩
          rcases Nat.eq_or_lt_of_le hm with rfl | hlt
          · exact ⟨fun hcon => absurd hdel hcon, fun _ hcon => by rw [hall] at hcon; cases hcon⟩
          · exact h m hlt hm'
        · -- a key that is not a subpath ends the rounds
          have hshort : ((page svc B s n).takeWhile (isSubpath s)).length <
              (page svc B s n).length := by
            refine Nat.lt_of_le_of_ne ( takeWhile_prefix _).length_le fun hlen => hall ?_
            exact all_eq_true.2 (takeWhile_eq_self_iff.1 (( takeWhile_prefix _).eq_of_length hlen))
          have hreached := reached_of_stop hsent.scanned fun h => absurd h hall
          simp only [hshort, if_true]
          refine ⟨_, rfl, ?_⟩
          rw [reliable_iff_of_last hsent fun m hm hm' => ?_, truthful_iff (l := reached B s)
            fun o => under_of_mem_reached, under_reached_iff]
          · simp [hdel, hall]
          · intro o
            refine (hleft.mem_deleteObjects _ hscan).trans ?_
            rw [← hreached, mem_append, not_or]
            simp [scan]
          · exact not_asked_of_stop hm (fun h => absurd h hall) (.inr ⟨hm'.scanned, hm'.left⟩)

/-- **When the success of a deletion can be relied on.** -/
theorem delete_truthful_iff (svc : Service) (root : Key) (B : Bucket) (path : Key) :
    ∃ out, delete svc root B path = some out ∧
      (Truthful B (ossPath root path) out ↔ Reliable svc B (ossPath root path) 0) := by
  have hlen : (listing B (ossPath root path)).length ≤ B.objects.length := length_filter_le _ _
  exact deleteRounds_spec (n := 0) _ (fun o => by simp [offset])
    (fun o ho => by simp [offset] at ho)
    (fun i hi => absurd hi (Nat.not_lt_zero i)) (fun i hi => absurd hi (Nat.not_lt_zero i))
    (by rw [offset]; omega)

/-- A service whose first multi-delete fails and deletes nothing. -/
def failing : Service :=
  { Service.full with deleteFault := fun _ => some .other, refused := fun _ => true }

/-- **A multi-delete that fails is reported as success**: the file is still there. -/
theorem failed_delete_reported : ∃ out, delete failing [] ⟨[⟨"a/b".toList, 1, 0⟩],
    pairwise_singleton _ _⟩ "/a".toList = some out ∧ out.1 = none ∧
      ∃ o ∈ out.2.objects, Under (ossPath [] "/a".toList) o.key := by
  refine ⟨_, rfl, rfl, ⟨"a/b".toList, 1, 0⟩, ?_, .inr ?_⟩
  · decide
  · decide

end ContainerRegistry.Analysis.Oss
