import ContainerRegistry.Analysis.ParallelWalks

/-!
# The walks of the storage drivers

One specification for the four walks, whatever the schedule and the failing requests. A walk that
returns nothing but missing paths has a missing root; the parallel S3 walk also says so when the
first listing of an existing root fails.
-/

namespace ContainerRegistry.Analysis.Offline

open Library Model List

variable {C κ E ε : Type} [DecidableEq C]

variable {T : ObjectTree C κ} {enters : List C → Bool} {root p dir : List C} {c : C}
  {ℓ : Listing C κ} {fails : Request C → Bool} {f : WalkFn C E ε}
  {V B : List C → Prop} {missing clear : Prop} {t : Trace C E ε}

def Walker.listing : Walker → Listing C κ
  | .fallback => fallbackListing
  | .fallbackParallel => fallbackListing
  | .s3 => s3Listing
  | .s3Parallel => s3Listing

/-- The root is there. On S3 a directory is there only through what lies in it. -/
def Walker.Present : Walker → ObjectTree C κ → List C → Prop
  | .fallback, T, root => T.isDir root = true
  | .fallbackParallel, T, root => T.isDir root = true
  | .s3, T, root => T.children root ≠ []
  | .s3Parallel, T, root => T.children root ≠ []

variable {w : Walker} {turns : List Turn} {r : Walked C E ε}

theorem not_below_of_absent (h : ¬ Walker.Present w T root) : ¬ Below T root p := by
  rintro ⟨hocc, c, r, rfl⟩
  have hchild : c ∈ T.children root :=
    ObjectTree.mem_children.2 (ObjectTree.occupied_of_append (q := r) (by simpa using hocc))
  have hdir := ObjectTree.isDir_of_child hchild
  have hne := ne_nil_of_mem hchild
  cases w with
  | fallback | fallbackParallel => exact h hdir
  | s3 | s3Parallel => exact h hne

theorem isDir_of_present (h : Walker.Present w T root) : T.isDir root = true := by
  have hne : T.children root ≠ [] → T.isDir root = true := by
    intro hne
    obtain ⟨c, hc⟩ := exists_mem_of_ne_nil _ hne
    exact ObjectTree.isDir_of_child hc
  cases w with
  | fallback | fallbackParallel => exact h
  | s3 | s3Parallel => exact hne h

omit [DecidableEq C] in
theorem multiError_eq_none {es : List (StorageError C ε)} : multiError es = none ↔ es = [] := by
  unfold multiError
  cases es with
  | nil | cons e es => simp

theorem Traced.error_eq_none (h : Traced T f V B missing clear t) :
    t.error = none ↔ t.flow = .next := by
  have hs := h.not_stop
  unfold Trace.error
  cases hfl : t.flow with
  | next => simp
  | stop => exact absurd hfl hs
  | error e => simp

theorem sequential_traced (hg : Guided T f enters root)
    (h : walkSequential ℓ T fails f (T.depth + 1) root = some t) :
    Traced T f (Visited T enters root) (Below T root) (T.isDir root = false)
      ((ℓ.strict = true → T.isDir root = true) ∧ AllClear ℓ T fails f enters root) t :=
  walkSequential_traced hg T.depth (.inl rfl) (Nat.le_add_right _ _) h

theorem s3_first_page (h : T.children root ≠ []) : 0 < ((s3Pages T root)[0]?.getD []).length := by
  have hpos := length_pos_of_ne_nil h
  have hmax : 0 < listMax := by decide
  simp [s3Pages]
  omega

/-- INTERNAL: the count of the parallel S3 walk is zero exactly when its root is empty or its first
listing fails. -/
theorem s3_count {s} (h : parallelPool (execS3 T fails f) root turns = some s) :
    (s.count = 0 ↔ T.children root = [] ∨ fails (.list root 0) = true) ∧
      (fails (.list root 0) = true → s.effects = []) := by
  obtain ⟨w₀, hw₀, hfin⟩ := Option.bind_eq_some_iff.1 h
  cases hfail : fails (.list root 0) with
  | true =>
    rw [execS3, if_pos hfail] at hw₀
    cases hw₀
    obtain ⟨hcount, heff, _⟩ := Pool.eq_start rfl hfin
    exact ⟨⟨fun _ => .inr rfl, fun _ => hcount⟩, fun _ => heff⟩
  | false =>
    rw [execS3, if_neg (by simp [hfail]), if_neg (by simp)] at hw₀
    cases hw₀
    refine ⟨⟨fun hzero => ?_, fun hnil => ?_⟩, by simp⟩
    · left
      by_contra hne
      have hle : ((s3Pages T root)[0]?.getD []).length ≤ s.count := Pool.count_le hfin
      have hpos := s3_first_page hne
      omega
    · rcases hnil with hnil | hnil
      · have hpage : (s3Pages T root)[0]?.getD [] = [] := by simp [s3Pages, hnil]
        have hlen : (s3Pages T root).length = 1 := by simp [s3Pages, hnil]
        obtain ⟨hcount, _, _⟩ := Pool.eq_start (by rw [hpage, hlen]; rfl) hfin
        rw [hcount]
        simp [hpage]
      · cases hnil

section

variable (hg : Guided T f enters root) (h : walkParallel w T fails f root turns = some r)
include hg h

/-- **A walk returns no error exactly when its root is there and all is clear.** -/
theorem walkParallel_ok_iff :
    r.error = none ↔
      Walker.Present w T root ∧ AllClear (Walker.listing w) T fails f enters root := by
  cases w <;> obtain ⟨s, hs, rfl⟩ := Option.map_eq_some_iff.1 h
  case fallback =>
    have htr := sequential_traced hg hs
    rw [htr.error_eq_none, htr.next_iff]
    exact ⟨fun hc => ⟨hc.1 rfl, hc.2⟩, fun hc => ⟨fun _ => hc.1, hc.2⟩⟩
  case fallbackParallel =>
    rw [multiError_eq_none]
    constructor
    · intro hok
      obtain ⟨hd, hall, _⟩ := parallel_complete execFallback_goroutines hs hg hok
      exact ⟨hd rfl, hall⟩
    · rintro ⟨hd, hall⟩
      exact parallel_clear execFallback_goroutines hs hg (fun _ => hd) hall
  case s3 =>
    have htr := sequential_traced hg hs
    have hclear : s.flow = .next ↔ AllClear s3Listing T fails f enters root :=
      htr.next_iff.trans ⟨fun hc => hc.2, fun hc => ⟨nofun, hc⟩⟩
    constructor
    · intro hok
      rw [Option.or_eq_none_iff, htr.error_eq_none] at hok
      refine ⟨fun hnil => ?_, hclear.1 hok.1⟩
      have hzero := (walkSequential_count hs hok.1).2 hnil
      simp [hzero] at hok
    · rintro ⟨hne, hall⟩
      have hn := hclear.2 hall
      have hpos : s.count ≠ 0 := fun hzero => hne ((walkSequential_count hs hn).1 hzero)
      simp [htr.error_eq_none.2 hn, hpos]
  case s3Parallel =>
    obtain ⟨hcount, _⟩ := s3_count hs
    constructor
    · intro hok
      simp only at hok
      split at hok
      · cases hok
      · next hpos =>
        rw [hcount, not_or] at hpos
        obtain ⟨_, hall, _⟩ := parallel_complete execS3_goroutines hs hg (multiError_eq_none.1 hok)
        exact ⟨hpos.1, hall⟩
    · rintro ⟨hne, hall⟩
      have herr := parallel_clear execS3_goroutines hs hg nofun hall
      have hanswer := hall.listed (.list root 0) (mem_entering.2 ⟨0, first_page, rfl⟩)
      have hpos : s.count ≠ 0 := by
        rw [Ne, hcount, not_or]
        exact ⟨hne, by simp [hanswer]⟩
      simp only
      rw [if_neg hpos, herr]
      rfl

/-- **A walk without an error has called the callback on everything it is meant to see.** -/
theorem walkParallel_complete (hok : r.error = none) (hp : Visited T enters root p) :
    ∃ es v, f p (T.isDir p) = some (es, v) ∧ ∀ e ∈ es, e ∈ r.effects := by
  cases w <;> obtain ⟨s, hs, rfl⟩ := Option.map_eq_some_iff.1 h
  case fallback =>
    have htr := sequential_traced hg hs
    exact htr.complete (htr.error_eq_none.1 hok) p hp
  case fallbackParallel =>
    exact (parallel_complete execFallback_goroutines hs hg (multiError_eq_none.1 hok)).2.2 p hp
  case s3 =>
    have htr := sequential_traced hg hs
    rw [Option.or_eq_none_iff, htr.error_eq_none] at hok
    exact htr.complete hok.1 p hp
  case s3Parallel =>
    simp only at hok
    split at hok
    · cases hok
    · exact (parallel_complete execS3_goroutines hs hg (multiError_eq_none.1 hok)).2.2 p hp

/-- **The effects of a walk come from calls of the callback on existing paths.** -/
theorem walkParallel_sound {e} (he : e ∈ r.effects) :
    ∃ p es v, Below T root p ∧ f p (T.isDir p) = some (es, v) ∧ e ∈ es := by
  cases w <;> obtain ⟨s, hs, rfl⟩ := Option.map_eq_some_iff.1 h
  case fallback | s3 => exact (sequential_traced hg hs).sound e he
  case fallbackParallel => exact (parallel_sound execFallback_goroutines hs).1 e he
  case s3Parallel => exact (parallel_sound execS3_goroutines hs).1 e he

end

/-- The parallel S3 walk whose first listing fails: the failure is reported as a missing
path. -/
def Walker.masks (w : Walker) (fails : Request C → Bool) (root : List C) : Prop :=
  w = .s3Parallel ∧ fails (.list root 0) = true

/-- **A masked walk has done nothing and says that its root is missing.** -/
theorem walkParallel_masked (hm : Walker.masks w fails root)
    (h : walkParallel w T fails f root turns = some r) :
    r.effects = [] ∧ r.error = some (.single (.pathNotFound root)) := by
  obtain ⟨rfl, hfail⟩ := hm
  obtain ⟨s, hs, rfl⟩ := Option.map_eq_some_iff.1 h
  obtain ⟨hcount, heff⟩ := s3_count hs
  refine ⟨heff hfail, ?_⟩
  simp only
  rw [if_pos (hcount.2 (.inr hfail))]

omit [DecidableEq C] in
theorem exists_pathNotFound {es : List (StorageError C ε)} {e : WalkError C ε}
    (he : multiError es = some e) (honly : e.onlyPathNotFound = true) :
    ∃ q, StorageError.pathNotFound q ∈ es := by
  unfold multiError at he
  split at he
  · cases he
  next hne =>
  cases he
  obtain ⟨e, hmem⟩ := exists_mem_of_ne_nil es (by simpa using hne)
  have hnf := all_eq_true.1 honly e hmem
  cases e with
  | pathNotFound q => exact ⟨q, hmem⟩
  | failed q | skipDir | other e => cases hnf

/-- **A walk that reports nothing but missing paths has a missing root or is masked**, if the
callback reports none. -/
theorem walkParallel_missing (hg : Guided T f enters root)
    (hf : ∀ p es q, Below T root p → f p (T.isDir p) ≠ some (es, .fail (.pathNotFound q)))
    (h : walkParallel w T fails f root turns = some r) {e : WalkError C ε}
    (he : r.error = some e) (honly : e.onlyPathNotFound = true) :
    ¬ Walker.Present w T root ∨ Walker.masks w fails root := by
  have habsent : T.isDir root = false → ¬ Walker.Present w T root := by
    intro hd hp
    rw [isDir_of_present hp] at hd
    cases hd
  -- a single error of a trace that is a missing path tells of the root
  have htrace : ∀ {ℓ : Listing C κ} {t : Trace C E ε} {e : WalkError C ε},
      walkSequential ℓ T fails f (T.depth + 1) root = some t → t.error = some e →
      e.onlyPathNotFound = true → ¬ Walker.Present w T root := by
    intro ℓ t e ht he honly
    have htr := sequential_traced hg ht
    unfold Trace.error at he
    cases hfl : t.flow with
    | next | stop => simp [hfl] at he
    | error e' =>
      simp only [hfl] at he
      cases he
      rcases htr.errors e' hfl with ⟨q, rfl⟩ | hmiss | ⟨p, es, hp, hfail⟩
      · cases honly
      · exact habsent hmiss
      · cases e' with
        | pathNotFound q => exact absurd hfail (hf p es q hp)
        | failed q | skipDir | other e => cases honly
  have hpool : ∀ {ℓ : Listing C κ}
      {exec : Bool → WalkTask C → Option (Work (WalkTask C) E (StorageError C ε))}
      {s : Pool (WalkTask C) E (StorageError C ε)}, Goroutines ℓ T fails f exec →
      parallelPool exec root turns = some s → multiError s.errors = some e →
      ¬ Walker.Present w T root := by
    intro ℓ exec s hx hs herr
    obtain ⟨q, hq⟩ := exists_pathNotFound herr honly
    rcases (parallel_sound hx hs).2 _ hq with ⟨_, h⟩ | h | hd | ⟨p, es, hp, hfail⟩
    · cases h
    · cases h
    · exact habsent hd
    · exact absurd hfail (hf p es q hp)
  cases w <;> obtain ⟨s, hs, rfl⟩ := Option.map_eq_some_iff.1 h
  case fallback =>
    exact .inl (htrace hs he honly)
  case fallbackParallel =>
    exact .inl (hpool execFallback_goroutines hs he)
  case s3 =>
    have htr := sequential_traced hg hs
    refine .inl ?_
    cases hte : s.error with
    | some e' =>
      simp only [hte, Option.some_or, Option.some.injEq] at he
      exact htrace hs hte (he ▸ honly)
    | none =>
      simp only [hte, Option.none_or] at he
      split at he
      · next hzero =>
        have hnil := (walkSequential_count hs (htr.error_eq_none.1 hte)).1 hzero
        exact fun hp => hp hnil
      · cases he
  case s3Parallel =>
    simp only at he
    split at he
    · next hzero =>
      rcases (s3_count hs).1.1 hzero with hnil | hfail
      · exact .inl fun hp => hp hnil
      · exact .inr ⟨rfl, hfail⟩
    · exact .inl (hpool execS3_goroutines hs he)

theorem walkSequential_list_failed {fuel} (hfail : fails (.list root 0) = true) :
    walkSequential ℓ T fails f (fuel + 1) root =
      some (Trace.still (.error (.failed (.list root 0)))) := by
  obtain ⟨page, pages, hpages⟩ := exists_cons_of_ne_nil (ℓ.pages_ne_nil T root)
  simp [walkSequential, hpages, zipIdx_cons, forEach, walkPage, hfail, Trace.still]

/-- **A failed first listing is told apart from a missing path**, unless it is masked. -/
theorem walkParallel_list_failed (hfail : fails (.list root 0) = true) (hw : w ≠ .s3Parallel)
    (h : walkParallel w T fails f root turns = some r) :
    ∃ e, r.error = some e ∧ e.onlyPathNotFound = false := by
  cases w <;> obtain ⟨s, hs, rfl⟩ := Option.map_eq_some_iff.1 h
  case fallback | s3 =>
    rw [walkSequential_list_failed hfail] at hs
    cases hs
    exact ⟨_, rfl, rfl⟩
  case fallbackParallel =>
    obtain ⟨w₀, hw₀, hfin⟩ := Option.bind_eq_some_iff.1 hs
    rw [execFallback, if_neg (by simp), if_pos hfail] at hw₀
    cases hw₀
    obtain ⟨_, _, herr⟩ := Pool.eq_start rfl hfin
    exact ⟨.multi [.failed (.list root 0)], by simp [herr, Work.error, multiError], rfl⟩
  case s3Parallel => exact absurd rfl hw

/-- **A missing root is reported as such** when the listing that finds it missing is answered. -/
theorem walkParallel_absent (habsent : ¬ Walker.Present w T root)
    (hanswer : fails (.list root 0) = false) (h : walkParallel w T fails f root turns = some r) :
    ∃ e, r.error = some e ∧ e.onlyPathNotFound = true := by
  cases w <;> obtain ⟨s, hs, rfl⟩ := Option.map_eq_some_iff.1 h
  case fallback =>
    have hdir : T.isDir root = false := Bool.eq_false_iff.2 habsent
    rw [walkSequential] at hs
    simp only [fallbackListing, zipIdx_cons, zipIdx_nil, forEach, walkPage, hanswer,
      hdir, Trace.still] at hs
    cases hs
    exact ⟨_, rfl, rfl⟩
  case fallbackParallel =>
    obtain ⟨w₀, hw₀, hfin⟩ := Option.bind_eq_some_iff.1 hs
    have hdir : ¬ T.isDir root = true := habsent
    rw [execFallback, if_neg (by simp), if_neg (by simp [hanswer]), if_neg hdir] at hw₀
    cases hw₀
    obtain ⟨_, _, herr⟩ := Pool.eq_start rfl hfin
    exact ⟨.multi [.pathNotFound root], by simp [herr, Work.error, multiError], rfl⟩
  case s3 =>
    have hnil : T.children root = [] := not_not.1 habsent
    have hpages : s3Pages T root = [[]] := by simp [s3Pages, hnil]
    rw [walkSequential] at hs
    simp only [s3Listing, hpages, zipIdx_cons, zipIdx_nil, forEach, walkPage, hanswer,
      Trace.still] at hs
    cases hs
    exact ⟨_, rfl, rfl⟩
  case s3Parallel =>
    have hzero := (s3_count hs).1.2 (.inl (not_not.1 habsent))
    exact ⟨.single (.pathNotFound root), if_pos hzero, rfl⟩

/-- **Every walk whose callback returns can return.** -/
theorem exists_walkParallel (w : Walker)
    (hf : ∀ p, Below T root p → ∃ r, f p (T.isDir p) = some r) :
    ∃ turns r, walkParallel w T fails f root turns = some r := by
  have hseq : ∀ ℓ : Listing C κ, ∃ t, walkSequential ℓ T fails f (T.depth + 1) root = some t :=
    fun ℓ => exists_walkSequential hf _ (.inl rfl)
  cases w with
  | fallback =>
    obtain ⟨t, ht⟩ := hseq fallbackListing
    exact ⟨[], _, Option.map_eq_some_iff.2 ⟨t, ht, rfl⟩⟩
  | fallbackParallel =>
    have hx : Goroutines fallbackListing T fails f _ := execFallback_goroutines
    obtain ⟨turns, s, hs⟩ := exists_parallel hx hf
    exact ⟨turns, _, Option.map_eq_some_iff.2 ⟨s, hs, rfl⟩⟩
  | s3 =>
    obtain ⟨t, ht⟩ := hseq s3Listing
    exact ⟨[], _, Option.map_eq_some_iff.2 ⟨t, ht, rfl⟩⟩
  | s3Parallel =>
    have hx : Goroutines s3Listing T fails f _ := execS3_goroutines
    obtain ⟨turns, s, hs⟩ := exists_parallel hx hf
    exact ⟨turns, _, Option.map_eq_some_iff.2 ⟨s, hs, rfl⟩⟩

end ContainerRegistry.Analysis.Offline
