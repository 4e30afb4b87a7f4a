import ContainerRegistry.Library.Runs
import ContainerRegistry.Model.SwiftDeletes

/-!
# Segments that nothing refers to

A segment is owned by a manifest that refers to it, or by an open writer (`Owned`), as long as no
manifest is replaced, no writer with segments is canceled, and a deletion finds all segments
(`Clear`). `Delete` does not follow a manifest at its own path.
-/

namespace ContainerRegistry.Analysis.SwiftDeletes

open Library (Reach run)
open Model.SwiftDeletes List

variable {κ : Type} [DecidableEq κ] {c c' : Container κ} {p : List κ} {svc : Service κ}

/-! ## Ownership -/

def Referenced (c : Container κ) (x : ℕ) : Prop := ∃ q, c.objects.lookup (.file q) = some (some x)

def Held (c : Container κ) (x : ℕ) : Prop :=
  ∃ i w, c.writers i = some w ∧ w.state = .opened ∧ w.segmentsPath = x

def Owned (c : Container κ) : Prop := ∀ x n, .segment x n ∈ c.objects → Referenced c x ∨ Held c x

def Leakless (c : Container κ) : Prop := ∀ x n, .segment x n ∈ c.objects → Referenced c x

def Vacant (p : List κ) (c : Container κ) : Prop := ∀ q, p <+: q → .file q ∉ c.objects

def Plain (c : Container κ) (p : List κ) : Prop := ∀ x, c.objects.lookup (.file p) ≠ some (some x)

/-- `Delete` is not called at a manifest, nor while an open writer has segments without a manifest,
and no deletion is refused. A segment that the listing omits has all numbers below it before it, and
two manifests below the path share no segment. -/
structure ClearDelete (svc : Service κ) (p : List κ) (c : Container κ) : Prop where
  plain : Plain c p
  referenced : ∀ x n, .segment x n ∈ c.objects → Held c x → Referenced c x
  refused : ∀ o, svc.refused o = false
  found : ∀ x n, .segment x n ∈ c.objects → svc.omitted (.segment x n) = true →
    n ≠ 0 ∧ ∀ k < n, .segment x (k + 1) ∈ c.objects
  unshared : ∀ q q' x n, isBelow p (.file q) = true → isBelow p (.file q') = true →
    c.objects.lookup (.file q) = some (some x) → c.objects.lookup (.file q') = some (some x) →
      .segment x n ∈ c.objects → q = q'

def ClearFiles : List (List κ × Service κ) → Container κ → Prop
  | [], _ => True
  | (p, svc) :: rest, c => ClearDelete svc p c ∧ ClearFiles rest (delete svc p c).1

def Clear (c : Container κ) : Action κ → Prop
  | .putContent p => Plain c p
  | .openWriter _ _ _ _ => True
  | .putSegment i => ∀ w, c.writers i = some w → w.state = .opened
  | .commit i _ => ∀ w, c.writers i = some w →
      ∀ x, c.objects.lookup (.file w.path) = some (some x) → x = w.segmentsPath
  | .cancel svc i => ∀ w, c.writers i = some w → ClearDelete svc w.path c ∧
      ∀ n, .segment w.segmentsPath n ∉ c.objects
  | .move _ dst _ => Plain c dst
  | .delete svc p => ClearDelete svc p c
  | .deleteFiles calls => ClearFiles calls c

/-! ## A clear deletion -/

theorem lookup_foldl_erase (os : List (Object κ)) (c : Container κ) (o : Object κ) :
    (os.foldl Container.erase c).objects.lookup o =
      if o ∈ os then none else c.objects.lookup o := by
  induction os generalizing c with
  | nil => rfl
  | cons o' os ih =>
    rw [foldl_cons, ih, Container.erase]
    by_cases ho : o = o'
    · subst ho
      simp
    · simp [ho]

theorem writers_foldl_erase (os : List (Object κ)) (c : Container κ) :
    (os.foldl Container.erase c).writers = c.writers := by
  induction os generalizing c with
  | nil => rfl
  | cons o os ih => exact ih (c.erase o)

/-- INTERNAL: objects that are there are deleted one by one. -/
theorem deleteEach_eq (hrefused : ∀ o, svc.refused o = false) {os}
    (hnodup : os.Nodup) (hmem : ∀ o ∈ os, o ∈ c.objects) :
    deleteEach svc os c = (os.foldl Container.erase c, none) := by
  induction os generalizing c with
  | nil => rfl
  | cons o os ih =>
    obtain ⟨ho, hnodup⟩ := nodup_cons.1 hnodup
    rw [deleteEach, hrefused, if_neg Bool.false_ne_true, if_pos (hmem o mem_cons_self)]
    refine ih hnodup fun o' ho' => ?_
    exact AList.mem_erase.2 ⟨fun h => ho (h ▸ ho'), hmem o' (mem_cons_of_mem _ ho')⟩

/-- The object is the segment of a manifest below the path. -/
def SegmentBelow (p : List κ) (c : Container κ) : Object κ → Prop
  | .file _ => False
  | .segment x _ => ∃ q, isBelow p (.file q) ∧ c.objects.lookup (.file q) = some (some x)

def Doomed (p : List κ) (c : Container κ) (o : Object κ) : Prop :=
  o = .file p ∨ isBelow p o ∨ SegmentBelow p c o

section ClearDelete

variable (h : ClearDelete svc p c)
include h

/-- All segments are listed. -/
theorem ClearDelete.mem_getAllSegments {o x} :
    o ∈ getAllSegments svc c x ↔ o ∈ c.objects ∧ ∃ n, o = .segment x n := by
  cases o with
  | file q => simp [getAllSegments]
  | segment y n =>
    simp only [getAllSegments, mem_filter, AList.mem_keys, Object.segment.injEq, Bool.and_eq_true,
      Bool.or_eq_true, decide_eq_true_eq, all_eq_true, mem_range, contains_iff_mem]
    refine and_congr_right fun hmem => ⟨fun hx => ⟨n, hx.1, rfl⟩, ?_⟩
    rintro ⟨_, rfl, rfl⟩
    refine ⟨rfl, ?_⟩
    cases homitted : svc.omitted (.segment y n) with
    | false => exact .inl rfl
    | true => exact .inr (h.found y n hmem homitted)

/-- What is to be deleted. -/
theorem ClearDelete.mem_toDelete (o : Object κ) :
    o ∈ toDelete svc p c ↔ o ∈ c.objects ∧ (isBelow p o ∨ SegmentBelow p c o) := by
  simp only [toDelete, mem_append, mem_filter, mem_flatMap]
  constructor
  · rintro (⟨ho, hb⟩ | ⟨file | _, ⟨-, hb⟩, ho⟩)
    · exact ⟨ho, .inl hb⟩
    · split at ho
      case h_1 x hx =>
        obtain ⟨ho, n, rfl⟩ := h.mem_getAllSegments.1 ho
        exact ⟨ho, .inr ⟨file, hb, hx⟩⟩
      case h_2 => cases ho
    · cases hb
  · rintro ⟨ho, hb | hb⟩
    · exact .inl ⟨ho, hb⟩
    · cases o with
      | file q => exact hb.elim
      | segment x n =>
        obtain ⟨q, hb, hx⟩ := hb
        refine .inr ⟨.file q, ⟨AList.lookup_isSome.1 (by simp [hx]), hb⟩, ?_⟩
        rw [hx]
        exact h.mem_getAllSegments.2 ⟨ho, n, rfl⟩

/-- Nothing twice. -/
theorem ClearDelete.nodup_toDelete : (toDelete svc p c).Nodup := by
  have hbelow : (c.objects.keys.filter (isBelow p)).Nodup := c.objects.keys_nodup.filter _
  refine nodup_append.2 ⟨hbelow, nodup_flatMap.2 ⟨fun o _ => ?_, ?_⟩, ?_⟩
  · split
    · exact c.objects.keys_nodup.filter _
    · exact nodup_nil
  · refine hbelow.pairwise_of_forall_ne fun o ho o' ho' hne s hs hs' => ?_
    -- a segment of both has the segments path of both
    obtain ⟨x, hx, hs⟩ :
        ∃ x, c.objects.lookup o = some (some x) ∧ s ∈ getAllSegments svc c x := by grind
    obtain ⟨y, hy, hs'⟩ :
        ∃ y, c.objects.lookup o' = some (some y) ∧ s ∈ getAllSegments svc c y := by grind
    obtain ⟨hmem, n, rfl⟩ := h.mem_getAllSegments.1 hs
    obtain ⟨-, m, heq⟩ := h.mem_getAllSegments.1 hs'
    cases heq
    have ho := (mem_filter.1 ho).2
    have ho' := (mem_filter.1 ho').2
    cases o with
    | segment => cases ho
    | file q =>
      cases o' with
      | segment => cases ho'
      | file q' => exact hne (h.unshared q q' x n ho ho' hx hy hmem ▸ rfl)
  · rintro o ho s hs rfl
    obtain ⟨o', -, hs⟩ := mem_flatMap.1 hs
    obtain ⟨x, hs⟩ : ∃ x, o ∈ getAllSegments svc c x := by grind
    obtain ⟨-, n, rfl⟩ := h.mem_getAllSegments.1 hs
    cases (mem_filter.1 ho).2

end ClearDelete

/-- What a clear `Delete` does, unless it fails before it deletes. -/
structure Deleted (p : List κ) (c c' : Container κ) : Prop where
  lookup : ∀ o, Doomed p c o ∧ c'.objects.lookup o = none ∨
    ¬ Doomed p c o ∧ c'.objects.lookup o = c.objects.lookup o
  writers : c'.writers = c.writers

/-- INTERNAL: **a clear deletion removes the path, all below it and their segments.** -/
theorem delete_spec (h : ClearDelete svc p c) :
    delete svc p c = (c, some .fault) ∨
      (delete svc p c).2 ≠ some .fault ∧ Deleted p c (delete svc p c).1 := by
  cases hfails : svc.fails with
  | true => exact .inl (by rw [delete, hfails, if_pos rfl])
  | false =>
    right
    have hmem := h.mem_toDelete
    have hall : (if svc.bulk then bulkDelete svc (toDelete svc p c) c
        else deleteEach svc (toDelete svc p c) c) =
          ((toDelete svc p c).foldl Container.erase c, none) := by
      split
      · simp [bulkDelete, h.refused]
      · exact deleteEach_eq h.refused h.nodup_toDelete fun o ho => ((hmem o).1 ho).1
    have hrest : ∀ o, o ≠ .file p → Doomed p c o ∧
        ((toDelete svc p c).foldl Container.erase c).objects.lookup o = none ∨ ¬ Doomed p c o ∧
        ((toDelete svc p c).foldl Container.erase c).objects.lookup o = c.objects.lookup o := by
      intro o hne
      rw [lookup_foldl_erase, show Doomed p c o ↔ _ from or_iff_right hne]
      by_cases hb : isBelow p o ∨ SegmentBelow p c o
      · by_cases ho : o ∈ c.objects
        · exact .inl ⟨hb, if_pos ((hmem o).2 ⟨ho, hb⟩)⟩
        · exact .inl ⟨hb, by simp [AList.lookup_eq_none.2 ho]⟩
      · exact .inr ⟨hb, if_neg fun ho => hb ((hmem o).1 ho).2⟩
    simp only [delete, hfails, Bool.false_eq_true, if_false, hall, h.refused]
    split
    · refine ⟨nofun, fun o => ?_, writers_foldl_erase _ c⟩
      by_cases ho : o = .file p
      · exact .inl ⟨.inl ho, ho ▸ AList.lookup_erase ..⟩
      · rw [Container.erase, AList.lookup_erase_ne ho]
        exact hrest o ho
    · rename_i hnone
      refine ⟨by split <;> nofun, fun o => ?_, writers_foldl_erase _ c⟩
      by_cases ho : o = .file p
      · exact .inl ⟨.inl ho, ho ▸ AList.lookup_eq_none.2 hnone⟩
      · exact hrest o ho

theorem Deleted.mem (h : Deleted p c c') {o} (ho : o ∈ c'.objects) :
    o ∈ c.objects ∧ ¬ Doomed p c o := by
  rw [← AList.lookup_isSome] at ho ⊢
  rcases h.lookup o with ⟨-, hnone⟩ | ⟨hnot, hsame⟩
  · simp [hnone] at ho
  · exact ⟨hsame ▸ ho, hnot⟩

theorem Deleted.vacant (h : Deleted p c c') : Vacant p c' := by
  intro q hq hmem
  refine (h.mem hmem).2 ?_
  by_cases hqp : q = p
  · exact .inl (hqp ▸ rfl)
  · exact .inr (.inl (by simp [isBelow, hq, hqp]))

/-- A clear delete leaks no segment. -/
theorem Deleted.leakless (h : Deleted p c c') (hc : ClearDelete svc p c) (ho : Owned c) :
    Leakless c' := by
  intro x n hs
  obtain ⟨hs, hkept⟩ := h.mem hs
  obtain ⟨q, hx⟩ := (ho x n hs).elim id (hc.referenced x n hs)
  rcases h.lookup (.file q) with ⟨hpath | hbelow | hsegment, -⟩ | ⟨-, hsame⟩
  · cases hpath
    exact absurd hx (hc.plain x)
  · exact absurd (.inr (.inr ⟨q, hbelow, hx⟩)) hkept
  · exact hsegment.elim
  · exact ⟨q, hsame.trans hx⟩

theorem Leakless.owned (h : Leakless c) : Owned c := fun x n hs => .inl (h x n hs)

theorem delete_owned (h : ClearDelete svc p c) (ho : Owned c) : Owned (delete svc p c).1 := by
  rcases delete_spec h with heq | ⟨-, hd⟩
  · rw [heq]
    exact ho
  · exact (hd.leakless h ho).owned

theorem deleteFiles_cons_eq {rest} (h : ClearDelete svc p c) :
    deleteFiles ((p, svc) :: rest) c = (c, some .fault) ∨ Deleted p c (delete svc p c).1 ∧
      deleteFiles ((p, svc) :: rest) c = deleteFiles rest (delete svc p c).1 := by
  rcases delete_spec h with heq | ⟨hne, hd⟩
  · exact .inl (by rw [deleteFiles, heq])
  · refine .inr ⟨hd, ?_⟩
    rw [deleteFiles]
    split
    case h_1 heq => rw [heq] at hne; exact absurd rfl hne
    case h_2 heq => rw [heq]

variable {calls : List (List κ × Service κ)}

theorem deleteFiles_owned (h : ClearFiles calls c) (ho : Owned c) :
    Owned (deleteFiles calls c).1 := by
  induction calls generalizing c with
  | nil => exact ho
  | cons call rest ih =>
    rcases deleteFiles_cons_eq h.1 with heq | ⟨-, heq⟩
    · rw [heq]
      exact ho
    · rw [heq]
      exact ih h.2 (delete_owned h.1 ho)

/-- INTERNAL: **what is deleted stays deleted**, and each call leaves no segment behind. -/
theorem deleteFiles_clean (h : ClearFiles calls c) (ho : Owned c)
    (hok : (deleteFiles calls c).2 = none) :
    (Leakless c → Leakless (deleteFiles calls c).1) ∧
      (∀ q, Vacant q c → Vacant q (deleteFiles calls c).1) ∧
      ∀ call ∈ calls, Vacant call.1 (deleteFiles calls c).1 ∧ Leakless (deleteFiles calls c).1 := by
  induction calls generalizing c with
  | nil => exact ⟨id, fun _ => id, nofun⟩
  | cons call rest ih =>
    rcases deleteFiles_cons_eq h.1 with heq | ⟨hd, heq⟩
    · rw [heq] at hok
      cases hok
    · rw [heq] at hok ⊢
      obtain ⟨hleakless, hvacant, hcalls⟩ := ih h.2 (delete_owned h.1 ho) hok
      have hall := hleakless (hd.leakless h.1 ho)
      refine ⟨fun _ => hall, fun q hq => hvacant q fun r hr hmem => hq r hr (hd.mem hmem).1, ?_⟩
      intro call' hmem
      rcases mem_cons.1 hmem with rfl | hmem
      · exact ⟨hvacant _ hd.vacant, hall⟩
      · exact hcalls call' hmem

/-! ## The other steps -/

/-- INTERNAL: ownership is kept by a step that keeps references and open writers, and adds no other
segment. -/
theorem Owned.of_kept (ho : Owned c) (hrefs : ∀ x, Referenced c x → Referenced c' x)
    (hheld : ∀ x n, .segment x n ∈ c.objects → Held c x → Referenced c' x ∨ Held c' x)
    (hsegments : ∀ x n, .segment x n ∈ c'.objects → .segment x n ∈ c.objects ∨ Held c' x) :
    Owned c' := by
  intro x n hs
  rcases hsegments x n hs with hs | hheld'
  · rcases ho x n hs with href | hh
    · exact .inl (hrefs x href)
    · exact hheld x n hs hh
  · exact .inr hheld'

variable {x i : ℕ} {w : Writer κ}

omit [DecidableEq κ] in
theorem Held.setWriter (h : Held c x) (w : Writer κ) :
    (∃ w', c.writers i = some w' ∧ w'.state = .opened ∧ w'.segmentsPath = x) ∨
      Held (c.setWriter i w) x := by
  obtain ⟨j, w', hw', hopen, hx⟩ := h
  by_cases hj : j = i
  · exact .inl ⟨w', hj ▸ hw', hopen, hx⟩
  · exact .inr ⟨j, w', (if_neg hj).trans hw', hopen, hx⟩

omit [DecidableEq κ] in
theorem held_setWriter (hopen : w.state = .opened) : Held (c.setWriter i w) w.segmentsPath :=
  ⟨i, w, if_pos rfl, hopen, rfl⟩

theorem Referenced.put {m} (h : Referenced c x) (hp : ∀ y,
    c.objects.lookup (.file p) = some (some y) → m = some y) :
    Referenced (c.put (.file p) m) x := by
  obtain ⟨q, hq⟩ := h
  by_cases hqp : q = p
  · subst hqp
    exact ⟨q, by rw [Container.put, AList.lookup_insert, hp x hq]⟩
  · exact ⟨q, (AList.lookup_insert_ne (by simpa using hqp)).trans hq⟩

theorem lookup_file_put_segment {n m} :
    (c.put (.segment x n) m).objects.lookup (.file p) = c.objects.lookup (.file p) :=
  AList.lookup_insert_ne (by simp)

theorem segment_mem_put_file {n m} :
    .segment x n ∈ (c.put (.file p) m).objects ↔ .segment x n ∈ c.objects := by
  simp [Container.put]

/-- A writer owns its segments. -/
theorem openWriter_owned {append} (hfree : c.writers i = none) (ho : Owned c) :
    Owned (openWriter svc i p append c) := by
  have hheld : ∀ {x} (w : Writer κ), Held c x → Held (c.setWriter i w) x := by
    intro x w h
    rcases h.setWriter (i := i) w with ⟨w', hw', -⟩ | h
    · rw [hfree] at hw'
      cases hw'
    · exact h
  unfold openWriter
  split
  · split
    · exact ho
    case h_2 hplain =>
      refine ho.of_kept ?_ (fun x n _ h => .inr (hheld _ h)) fun x n hs => ?_
      · rintro x ⟨q, hq⟩
        have hne : (.file q : Object κ) ≠ .file p := fun h => by
          rw [h, hplain] at hq
          cases hq
        exact ⟨q, (lookup_file_put_segment (c := c.erase (.file p))).trans
          ((AList.lookup_erase_ne hne).trans hq)⟩
      · rcases AList.mem_insert _ |>.1 hs with heq | hs
        · cases heq
          exact .inr (held_setWriter rfl)
        · exact .inl (AList.mem_erase.1 hs).2
    case h_3 =>
      exact ho.of_kept (fun _ => id) (fun x n _ h => .inr (hheld _ h)) fun _ _ => .inl
  · exact ho.of_kept (fun _ => id) (fun x n _ h => .inr (hheld _ h)) fun _ _ => .inl

/-- It adds one. -/
theorem putSegment_owned (hw : c.writers i = some w) (hopen : w.state = .opened) (ho : Owned c) :
    Owned (putSegment i w c) := by
  refine ho.of_kept ?_ (fun x n _ h => .inr ?_) fun x n hs => ?_
  · rintro x ⟨q, hq⟩
    exact ⟨q, lookup_file_put_segment.trans hq⟩
  · rcases h.setWriter (i := i) { w with segmentNumber := w.segmentNumber + 1 } with
      ⟨w', hw', -, rfl⟩ | h
    · rw [hw] at hw'
      cases hw'
      exact held_setWriter hopen
    · exact h
  · rcases AList.mem_insert _ |>.1 hs with heq | hs
    · cases heq
      exact .inr (held_setWriter hopen)
    · exact .inl hs

theorem commit_owned {ends} (hw : c.writers i = some w)
    (hpath : ∀ x, c.objects.lookup (.file w.path) = some (some x) → x = w.segmentsPath)
    (ho : Owned c) : Owned (commit i w ends c) := by
  refine ho.of_kept (fun x h => h.put fun y hy => by rw [hpath y hy]) (fun x n _ h => ?_)
    fun x n hs => .inl (segment_mem_put_file.1 hs)
  rcases h.setWriter (i := i) { w with state := if ends then .ended else w.state } with
    ⟨w', hw', -, rfl⟩ | h
  · rw [hw] at hw'
    cases hw'
    exact .inl ⟨w.path, AList.lookup_insert _⟩
  · exact .inr h

/-- It is cancelled. -/
theorem cancel_owned (hw : c.writers i = some w) (hdel : ClearDelete svc w.path c)
    (hnone : ∀ n, .segment w.segmentsPath n ∉ c.objects) (ho : Owned c) :
    Owned ((delete svc w.path c).1.setWriter i { w with state := .canceled }) := by
  have hframe : (delete svc w.path c).1.writers = c.writers ∧
      ∀ o ∈ (delete svc w.path c).1.objects, o ∈ c.objects := by
    rcases delete_spec hdel with heq | ⟨-, hd⟩
    · rw [heq]
      exact ⟨rfl, fun _ => id⟩
    · exact ⟨hd.writers, fun o h => (hd.mem h).1⟩
  refine (delete_owned hdel ho).of_kept (fun _ => id) (fun x n hs h => .inr ?_) fun _ _ => .inl
  rcases h.setWriter (i := i) { w with state := .canceled } with ⟨w', hw', -, rfl⟩ | h
  · rw [hframe.1, hw] at hw'
    cases hw'
    exact absurd (hframe.2 _ hs) (hnone n)
  · exact h

/-- A file is moved. -/
theorem move_owned {src dst stays} (hdst : Plain c dst) (ho : Owned c) :
    Owned (move src dst stays c) := by
  unfold move
  split
  · exact ho
  case h_2 f hf =>
    split
    · exact ho.of_kept (fun x h => h.put fun y hy => absurd hy (hdst y)) (fun _ _ _ => .inr)
        fun x n hs => .inl (segment_mem_put_file.1 hs)
    · refine ho.of_kept ?_ (fun _ _ _ => .inr) fun x n hs =>
        .inl (segment_mem_put_file.1 (AList.mem_erase.1 hs).2)
      rintro x ⟨q, hq⟩
      by_cases hqs : q = src
      · -- the manifest is at its destination
        subst hqs
        have hne : dst ≠ q := fun h => hdst x (h ▸ hq)
        rw [hq] at hf
        cases hf
        exact ⟨dst, (AList.lookup_erase_ne (by simpa using hne)).trans (AList.lookup_insert _)⟩
      · have hne : q ≠ dst := fun h => hdst x (h ▸ hq)
        refine ⟨q, (AList.lookup_erase_ne (by simpa using hqs)).trans ?_⟩
        exact (AList.lookup_insert_ne (by simpa using hne)).trans hq

omit [DecidableEq κ] in
theorem of_writer {P : Writer κ → Prop} [DecidablePred P] {f : Writer κ → Container κ}
    (h : (c.writers i).bind (fun w => if P w then some (f w) else none) = some c') :
    ∃ w, c.writers i = some w ∧ P w ∧ f w = c' := by
  simpa [Option.bind_eq_some_iff] using h

/-- INTERNAL: every segment has an owner. -/
theorem step_owned {a} (ho : Owned c) (hclear : Clear c a) (hstep : step c a = some c') :
    Owned c' := by
  cases a with
  | putContent p =>
    cases hstep
    exact ho.of_kept (fun x h => h.put fun y hy => absurd hy (hclear y)) (fun _ _ _ => .inr)
      fun x n hs => .inl (segment_mem_put_file.1 hs)
  | openWriter svc i p append =>
    simp only [step, Option.ite_none_right_eq_some, Option.some.injEq, Option.isNone_iff_eq_none]
      at hstep
    exact hstep.2 ▸ openWriter_owned hstep.1 ho
  | putSegment i =>
    obtain ⟨w, hw, -, rfl⟩ := of_writer hstep
    exact putSegment_owned hw (hclear w hw) ho
  | commit i ends =>
    obtain ⟨w, hw, -, rfl⟩ := of_writer hstep
    exact commit_owned hw (hclear w hw) ho
  | cancel svc i =>
    obtain ⟨w, hw, -, rfl⟩ := of_writer hstep
    exact cancel_owned hw (hclear w hw).1 (hclear w hw).2 ho
  | move src dst stays =>
    cases hstep
    exact move_owned hclear ho
  | delete svc p =>
    cases hstep
    exact delete_owned hclear ho
  | deleteFiles calls =>
    cases hstep
    exact deleteFiles_owned hclear ho

/-- A service without faults, asked to delete one object after the other. -/
def reliable : Service ℕ := ⟨false, false, fun _ => false, false, fun _ => false⟩

def oneFile : Container ℕ :=
  commit 0 ⟨[0, 1], 0, 2, .opened⟩ true (putSegment 0 ⟨[0, 1], 0, 1, .opened⟩
    (openWriter reliable 0 [0, 1] false Container.empty))

end ContainerRegistry.Analysis.SwiftDeletes
