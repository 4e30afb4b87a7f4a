import ContainerRegistry.Analysis.SequentialWalks
import Mathlib.Data.Prod.Lex

/-!
# What a parallel walk sees

Both parallel walks are pools of goroutines that list a page or visit a path. `Goroutines` says what
the two have in common, and the rest only uses that.
-/

namespace ContainerRegistry.Analysis.Offline

open Library Model List

variable {C κ E ε : Type} [DecidableEq C]

variable {T : ObjectTree C κ} {enters : List C → Bool} {root p dir : List C} {c : C}
  {ℓ : Listing C κ} {fails : Request C → Bool} {f : WalkFn C E ε}

/-- What the goroutines of a parallel walk have in common. -/
structure Goroutines (ℓ : Listing C κ) (T : ObjectTree C κ) (fails : Request C → Bool)
    (f : WalkFn C E ε)
    (exec : Bool → WalkTask C → Option (Work (WalkTask C) E (StorageError C ε))) : Prop where
  /-- A visit calls the callback, unless a request before it fails. -/
  visit : ∀ {b p w}, T.occupied p = true → exec b (.visit p) = some w →
    (∃ q ∈ Listing.looking ℓ p, fails q = true ∧ w = Work.error (.failed q)) ∨
    (∀ q ∈ Listing.looking ℓ p, fails q = false) ∧ ∃ es v, f p (T.isDir p) = some (es, v) ∧
      w.effects = es ∧ (∀ t ∈ w.spawn, t ∈ descent T p ∧ v ≠ .skip) ∧
      (v = .proceed → w.spawn = descent T p) ∧ w.errors = match v with
        | .proceed => []
        | .skip => if T.isDir p then [] else [.skipDir]
        | .fail e => [e]
  /-- A listing fails, is not done in a closed walk, finds no directory, or spawns a visit for
  each name in its page and the next page. -/
  list : ∀ {b p k w}, k < (ℓ.pages T p).length → exec b (.list p k) = some w →
    (fails (.list p k) = true ∧ w = Work.error (.failed (.list p k))) ∨
    (b = true ∧ w = Work.idle) ∨
    (ℓ.strict = true ∧ T.isDir p = false ∧ w = Work.error (.pathNotFound p)) ∨
    (fails (.list p k) = false ∧ (ℓ.strict = true → T.isDir p = true) ∧ w.effects = [] ∧
      w.errors = [] ∧ ∀ t, t ∈ w.spawn ↔
        (∃ page, (ℓ.pages T p)[k]? = some page ∧ ∃ c ∈ page, t = .visit (p ++ [c])) ∨
        (k + 1 < (ℓ.pages T p).length ∧ t = .list p (k + 1)))
  /-- Only a callback that does not return keeps a goroutine from returning. -/
  returns : ∀ b t, (∀ p, t = .visit p → ∃ r, f p (T.isDir p) = some r) → ∃ w, exec b t = some w

/-- The goroutines of the fallback, -/
theorem execFallback_goroutines :
    Goroutines fallbackListing T fails f (execFallback T fails f) := by
  refine ⟨?_, ?_, ?_⟩
  · intro b p w hocc h
    rw [execFallback] at h
    split at h
    · next hfail =>
      exact .inl ⟨.stat p, by simp [Listing.looking, fallbackListing], hfail,
        (Option.some.inj h).symm⟩
    next hfail =>
    obtain ⟨⟨es, v⟩, hf, rfl⟩ := Option.map_eq_some_iff.1 h
    refine .inr ⟨by simpa [Listing.looking, fallbackListing] using hfail, es, v, hf, ?_⟩
    cases v with
    | proceed => exact ⟨rfl, fun t ht => ⟨ht, by simp⟩, fun _ => rfl, rfl⟩
    | skip | fail e => exact ⟨rfl, by simp, by simp, rfl⟩
  · intro b p k w hk h
    have hk0 : k = 0 := by simpa [fallbackListing] using hk
    subst hk0
    rw [execFallback] at h
    split at h
    · next hb => exact .inr (.inl ⟨hb, (Option.some.inj h).symm⟩)
    split at h
    · next hfail => exact .inl ⟨hfail, (Option.some.inj h).symm⟩
    next hfail =>
    split at h
    · next hdir =>
      cases h
      refine .inr (.inr (.inr ⟨by simpa using hfail, fun _ => hdir, rfl, rfl, fun t => ?_⟩))
      simp [fallbackListing, eq_comm]
    · next hdir =>
      exact .inr (.inr (.inl ⟨rfl, by simpa using hdir, (Option.some.inj h).symm⟩))
  · intro b t hf
    cases t with
    | list p k =>
      rw [execFallback]
      repeat' split
      all_goals exact ⟨_, rfl⟩
    | visit p =>
      obtain ⟨r, hr⟩ := hf p rfl
      rw [execFallback, hr]
      repeat' split
      all_goals exact ⟨_, rfl⟩

/-- and those of S3. -/
theorem execS3_goroutines : Goroutines s3Listing T fails f (execS3 T fails f) := by
  refine ⟨?_, ?_, ?_⟩
  · intro b p w _ h
    rw [execS3] at h
    obtain ⟨⟨es, v⟩, hf, rfl⟩ := Option.map_eq_some_iff.1 h
    refine .inr ⟨by simp [Listing.looking, s3Listing], es, v, hf, ?_⟩
    cases v with
    | proceed => exact ⟨rfl, fun t ht => ⟨ht, by simp⟩, fun _ => rfl, rfl⟩
    | skip => exact ⟨rfl, by simp, by simp, rfl⟩
    | fail e => exact ⟨rfl, fun t ht => ⟨ht, by simp⟩, by simp, rfl⟩
  · intro b p k w hk h
    have hpage : (s3Pages T p)[k]? = some ((s3Pages T p)[k]?.getD []) := by
      have hk' : k < (s3Pages T p).length := hk
      simp [List.getElem?_eq_getElem hk']
    rw [execS3] at h
    split at h
    · next hfail => exact .inl ⟨hfail, (Option.some.inj h).symm⟩
    next hfail =>
    split at h
    · next hb => exact .inr (.inl ⟨hb, (Option.some.inj h).symm⟩)
    cases h
    refine .inr (.inr (.inr ⟨by simpa using hfail, by rintro ⟨⟩, rfl, rfl, fun t => ?_⟩))
    show t ∈ _ ++ _ ↔ _
    rw [mem_append, mem_map]
    refine or_congr ⟨?_, ?_⟩ ?_
    · rintro ⟨c, hc, rfl⟩
      exact ⟨_, hpage, c, hc, rfl⟩
    · rintro ⟨page, hp, c, hc, rfl⟩
      have hsame : (s3Pages T p)[k]?.getD [] = page := by
        rw [show (s3Pages T p)[k]? = some page from hp, Option.getD_some]
      exact ⟨c, hsame ▸ hc, rfl⟩
    · show (t ∈ if k + 1 < (s3Pages T p).length then [WalkTask.list p (k + 1)] else []) ↔
        (k + 1 < (s3Pages T p).length ∧ t = .list p (k + 1))
      by_cases hmore : k + 1 < (s3Pages T p).length <;> simp [hmore]
  · intro b t hf
    cases t with
    | list p k =>
      rw [execS3]
      repeat' split
      all_goals exact ⟨_, rfl⟩
    | visit p =>
      obtain ⟨r, hr⟩ := hf p rfl
      rw [execS3, hr]
      exact ⟨_, rfl⟩

section Pool

variable {exec : Bool → WalkTask C → Option (Work (WalkTask C) E (StorageError C ε))}
  {b : Bool} {task : WalkTask C} {w : Work (WalkTask C) E (StorageError C ε)}
  {turns : List Turn} {s : Pool (WalkTask C) E (StorageError C ε)}

/-- The tasks about existing paths below the root. -/
def Underneath (ℓ : Listing C κ) (T : ObjectTree C κ) (root : List C) : WalkTask C → Prop
  | .visit p => Below T root p
  | .list p k => k < (ℓ.pages T p).length ∧ (p = root ∨ Below T root p ∧ T.isDir p = true)

def OnCourse (ℓ : Listing C κ) (T : ObjectTree C κ) (enters : List C → Bool) (root : List C) :
    WalkTask C → Prop
  | .visit p => Visited T enters root p
  | .list p k => k < (ℓ.pages T p).length ∧
      (p = root ∨ Visited T enters root p ∧ enters p = true ∧ T.isDir p = true)

theorem first_page : 0 < (ℓ.pages T p).length := length_pos_of_ne_nil (ℓ.pages_ne_nil T p)

theorem mem_of_page {k : ℕ} {page : List C} (hp : (ℓ.pages T p)[k]? = some page)
    (hc : c ∈ page) : c ∈ T.children p :=
  (ℓ.mem_pages T p c).1 ⟨page, mem_of_getElem? hp, hc⟩

theorem mem_descent : task ∈ descent T p ↔ T.isDir p = true ∧ task = .list p 0 := by
  unfold descent
  split <;> simp [*]

/-- INTERNAL: tasks below the root stay below it; effects come from the callback, errors from
requests, the callback or a missing root. -/
theorem Goroutines.underneath (hx : Goroutines ℓ T fails f exec)
    (ht : Underneath ℓ T root task) (h : exec b task = some w) :
    (∀ t' ∈ w.spawn, Underneath ℓ T root t') ∧
      (∀ e ∈ w.effects, ∃ p es v, Below T root p ∧ f p (T.isDir p) = some (es, v) ∧ e ∈ es) ∧
      ∀ e ∈ w.errors, (∃ q, e = .failed q) ∨ e = .skipDir ∨ T.isDir root = false ∨
        ∃ p es, Below T root p ∧ f p (T.isDir p) = some (es, .fail e) := by
  cases task with
  | visit p =>
    rcases hx.visit ht.1 h with ⟨q, _, _, rfl⟩ | ⟨_, es, v, hf, heff, hspawn, _, herr⟩
    · refine ⟨by rintro _ ⟨⟩, by rintro _ ⟨⟩, fun e he => ?_⟩
      exact .inl ⟨q, mem_singleton.1 he⟩
    refine ⟨fun t' ht' => ?_, fun e he => ⟨p, es, v, ht, hf, heff ▸ he⟩, fun e he => ?_⟩
    · obtain ⟨hd, rfl⟩ := mem_descent.1 (hspawn t' ht').1
      exact ⟨first_page, .inr ⟨ht, hd⟩⟩
    · rw [herr] at he
      cases v with
      | proceed => cases he
      | skip =>
        simp only at he
        split at he
        · cases he
        · exact .inr (.inl (mem_singleton.1 he))
      | fail e' =>
        obtain rfl := mem_singleton.1 he
        exact .inr (.inr (.inr ⟨p, es, ht, hf⟩))
  | list p k =>
    obtain ⟨hk, hp⟩ := ht
    rcases hx.list hk h with ⟨_, rfl⟩ | ⟨_, rfl⟩ | ⟨_, hd, rfl⟩ | ⟨_, _, heff, herr, hspawn⟩
    · refine ⟨by rintro _ ⟨⟩, by rintro _ ⟨⟩, fun e he => ?_⟩
      exact .inl ⟨_, mem_singleton.1 he⟩
    · exact ⟨by rintro _ ⟨⟩, by rintro _ ⟨⟩, by rintro _ ⟨⟩⟩
    · refine ⟨by rintro _ ⟨⟩, by rintro _ ⟨⟩, fun e he => ?_⟩
      rcases hp with rfl | ⟨_, hd'⟩
      · exact .inr (.inr (.inl hd))
      · rw [hd] at hd'
        cases hd'
    · refine ⟨fun t' ht' => ?_, fun e he => ?_, fun e he => ?_⟩
      · rcases (hspawn t').1 ht' with ⟨page, hpage, c, hc, rfl⟩ | ⟨hmore, rfl⟩
        · have hb := below_child (mem_of_page hpage hc)
          rcases hp with rfl | ⟨hp, _⟩
          · exact hb
          · exact hp.trans hb
        · exact ⟨hmore, hp⟩
      · rw [heff] at he
        cases he
      · rw [herr] at he
        cases he

/-- No goroutine fails. -/
theorem Goroutines.onCourse (hx : Goroutines ℓ T fails f exec) (hg : Guided T f enters root)
    (hroot : ℓ.strict = true → T.isDir root = true) (hall : AllClear ℓ T fails f enters root)
    (ht : OnCourse ℓ T enters root task) (h : exec b task = some w) :
    (∀ t' ∈ w.spawn, OnCourse ℓ T enters root t') ∧ w.errors = [] := by
  cases task with
  | visit p =>
    have hv : Visited T enters root p := ht
    have hclear := hall.clear p hv
    rcases hx.visit hv.isBelow.1 h with
      ⟨q, hq, hfail, rfl⟩ | ⟨_, es, v, hf, _, hspawn, hproceed, herr⟩
    · rw [hclear.looked q hq] at hfail
      cases hfail
    obtain ⟨hent, hskip⟩ := hg p es v hv hf
    cases v with
    | proceed =>
      refine ⟨fun t' ht' => ?_, herr⟩
      obtain ⟨hd, rfl⟩ := mem_descent.1 (hspawn t' ht').1
      exact ⟨first_page, .inr ⟨hv, hent rfl hd, hd⟩⟩
    | skip =>
      obtain ⟨hd, _⟩ := hskip rfl
      exact ⟨fun t' ht' => absurd rfl (hspawn t' ht').2, by simpa [hd] using herr⟩
    | fail e => exact absurd hf (hclear.accepted es e)
  | list p k =>
    obtain ⟨hk, hp⟩ := ht
    have hanswer : fails (.list p k) = false := by
      have hmem : Request.list p k ∈ Listing.entering ℓ T p := mem_entering.2 ⟨k, hk, rfl⟩
      rcases hp with rfl | ⟨hv, he, hd⟩
      · exact hall.listed _ hmem
      · exact (hall.clear p hv).entered hd he _ hmem
    rcases hx.list hk h with ⟨hfail, _⟩ | ⟨_, rfl⟩ | ⟨hs, hd, rfl⟩ | ⟨_, _, _, herr, hspawn⟩
    · rw [hanswer] at hfail
      cases hfail
    · exact ⟨by rintro _ ⟨⟩, rfl⟩
    · rcases hp with rfl | ⟨_, _, hd'⟩
      · rw [hroot hs] at hd
        cases hd
      · rw [hd] at hd'
        cases hd'
    · refine ⟨fun t' ht' => ?_, herr⟩
      rcases (hspawn t').1 ht' with ⟨page, hpage, c, hc, rfl⟩ | ⟨hmore, rfl⟩
      · have hchild := mem_of_page hpage hc
        rcases hp with rfl | ⟨hv, he, _⟩
        · exact Visited.child hchild
        · exact Visited.deeper hv he hchild
      · exact ⟨hmore, hp⟩

/-- The tasks of a walk, the caller's first listing included. -/
def Ran (exec : Bool → WalkTask C → Option (Work (WalkTask C) E (StorageError C ε)))
    (root : List C) (w₀ : Work (WalkTask C) E (StorageError C ε)) (task : WalkTask C) : Prop :=
  task = .list root 0 ∨ Descends exec w₀ task

structure Finished (exec : Bool → WalkTask C → Option (Work (WalkTask C) E (StorageError C ε)))
    (root : List C) (w₀ : Work (WalkTask C) E (StorageError C ε))
    (s : Pool (WalkTask C) E (StorageError C ε)) : Prop where
  did : ∀ task, Ran exec root w₀ task → s.Did exec task
  spawned : ∀ task w task', Ran exec root w₀ task → exec false task = some w →
    task' ∈ w.spawn → Ran exec root w₀ task'

omit [DecidableEq C] in
/-- Without errors all tasks are done. -/
theorem finished_of_pool (h : parallelPool exec root turns = some s) (hok : s.errors = []) :
    ∃ w₀, Finished exec root w₀ s := by
  obtain ⟨w₀, hw₀, hfin⟩ := Option.bind_eq_some_iff.1 h
  obtain ⟨hok₀, heff₀, hdid⟩ := Pool.clean hfin hok
  refine ⟨w₀, ?_, ?_⟩
  · rintro task (rfl | ht)
    · exact ⟨w₀, hw₀, hok₀, heff₀⟩
    · exact hdid task ht
  · rintro task w task' (rfl | ht) hw hmem
    · have hsame : w = w₀ := Option.some.inj (hw.symm.trans hw₀)
      exact .inr (Descends.first (hsame ▸ hmem))
    · exact .inr (Descends.spawned ht hw hmem)

variable {w₀ : Work (WalkTask C) E (StorageError C ε)}

section

variable (hx : Goroutines ℓ T fails f exec)
include hx

theorem Finished.page {k} (h : Finished exec root w₀ s)
    (hk : k < (ℓ.pages T p).length) (hran : Ran exec root w₀ (.list p k)) :
    fails (.list p k) = false ∧ (ℓ.strict = true → T.isDir p = true) ∧
      (∀ page c, (ℓ.pages T p)[k]? = some page → c ∈ page → Ran exec root w₀ (.visit (p ++ [c]))) ∧
      (k + 1 < (ℓ.pages T p).length → Ran exec root w₀ (.list p (k + 1))) := by
  obtain ⟨w, hw, hok, _⟩ := h.did _ hran
  rcases hx.list hk hw with ⟨_, rfl⟩ | ⟨hb, _⟩ | ⟨_, _, rfl⟩ | ⟨hanswer, hdir, _, _, hspawn⟩
  · cases hok
  · cases hb
  · cases hok
  · refine ⟨hanswer, hdir, fun page c hpage hc => ?_, fun hmore => ?_⟩
    · exact h.spawned _ w _ hran hw ((hspawn _).2 (.inl ⟨page, hpage, c, hc, rfl⟩))
    · exact h.spawned _ w _ hran hw ((hspawn _).2 (.inr ⟨hmore, rfl⟩))

/-- INTERNAL: a directory whose first page was listed has been listed, and every name in it
visited. -/
theorem Finished.directory (h : Finished exec root w₀ s) (hran : Ran exec root w₀ (.list p 0)) :
    (∀ q ∈ Listing.entering ℓ T p, fails q = false) ∧ (ℓ.strict = true → T.isDir p = true) ∧
      ∀ c ∈ T.children p, Ran exec root w₀ (.visit (p ++ [c])) := by
  have hpages : ∀ k, k < (ℓ.pages T p).length → Ran exec root w₀ (.list p k) := by
    intro k
    induction k with
    | zero => exact fun _ => hran
    | succ k ih =>
      intro hk
      exact (h.page hx (by omega) (ih (by omega))).2.2.2 hk
  refine ⟨fun q hq => ?_, (h.page hx first_page hran).2.1, fun c hc => ?_⟩
  · obtain ⟨k, hk, rfl⟩ := mem_entering.1 hq
    exact (h.page hx hk (hpages k hk)).1
  · obtain ⟨page, hpage, hmem⟩ := (ℓ.mem_pages T p c).2 hc
    obtain ⟨k, hk⟩ := mem_iff_getElem?.1 hpage
    have hlt := (List.getElem?_eq_some_iff.1 hk).1
    exact (h.page hx hlt (hpages k hlt)).2.2.1 page c hk hmem

/-- What was to be visited has been. -/
theorem Finished.visit (hg : Guided T f enters root)
    (h : Finished exec root w₀ s) (hv : Visited T enters root p)
    (hran : Ran exec root w₀ (.visit p)) :
    (∃ es v, f p (T.isDir p) = some (es, v) ∧ ∀ e ∈ es, e ∈ s.effects) ∧
      Clear ℓ T fails f enters p ∧
      (T.isDir p = true → enters p = true → Ran exec root w₀ (.list p 0)) := by
  obtain ⟨w, hw, hok, hsub⟩ := h.did _ hran
  rcases hx.visit hv.isBelow.1 hw with
    ⟨q, _, _, rfl⟩ | ⟨hlooked, es, v, hf, heff, _, hproceed, herr⟩
  · cases hok
  have henter : T.isDir p = true → enters p = true → Ran exec root w₀ (.list p 0) := by
    intro hd he
    cases v with
    | proceed =>
      refine h.spawned _ w _ hran hw ?_
      rw [hproceed rfl]
      simp [descent, hd]
    | skip =>
      rw [((hg p es _ hv hf).2 rfl).2] at he
      cases he
    | fail e =>
      rw [hok] at herr
      cases herr
  refine ⟨⟨es, v, hf, fun e he => hsub e (heff ▸ he)⟩, ⟨hlooked, ?_, ?_⟩, henter⟩
  · intro hd he
    exact (h.directory hx (henter hd he)).1
  · intro es' e hfail
    rw [hf] at hfail
    cases hfail
    rw [hok] at herr
    cases herr

variable (h : parallelPool exec root turns = some s)
include h

/-- **A parallel walk that reports no error has seen everything**, whatever the schedule. -/
theorem parallel_complete (hg : Guided T f enters root) (hok : s.errors = []) :
    (ℓ.strict = true → T.isDir root = true) ∧ AllClear ℓ T fails f enters root ∧
      ∀ p, Visited T enters root p →
        ∃ es v, f p (T.isDir p) = some (es, v) ∧ ∀ e ∈ es, e ∈ s.effects := by
  obtain ⟨w₀, hfin⟩ := finished_of_pool h hok
  obtain ⟨hlisted, hdir, hchildren⟩ := hfin.directory hx (.inl rfl)
  have hran : ∀ p, Visited T enters root p → Ran exec root w₀ (.visit p) := by
    intro p hp
    induction hp with
    | child hc => exact hchildren _ hc
    | deeper hv he hc ih =>
      have hd := ObjectTree.isDir_of_child hc
      have hlist := (hfin.visit hx hg hv ih).2.2 hd he
      exact (hfin.directory hx hlist).2.2 _ hc
  refine ⟨hdir, ⟨hlisted, fun p hp => ?_⟩, fun p hp => ?_⟩
  · exact (hfin.visit hx hg hp (hran p hp)).2.1
  · exact (hfin.visit hx hg hp (hran p hp)).1

theorem parallel_sound :
    (∀ e ∈ s.effects, ∃ p es v, Below T root p ∧ f p (T.isDir p) = some (es, v) ∧ e ∈ es) ∧
      ∀ e ∈ s.errors, (∃ q, e = .failed q) ∨ e = .skipDir ∨ T.isDir root = false ∨
        ∃ p es, Below T root p ∧ f p (T.isDir p) = some (es, .fail e) := by
  obtain ⟨w₀, hw₀, hfin⟩ := Option.bind_eq_some_iff.1 h
  have hfirst : Underneath ℓ T root (.list root 0) := ⟨first_page, .inl rfl⟩
  exact Pool.confined (hx.underneath hfirst hw₀) (fun _ _ _ ht hw => hx.underneath ht hw) hfin

/-- If all is clear there are no errors. -/
theorem parallel_clear (hg : Guided T f enters root)
    (hroot : ℓ.strict = true → T.isDir root = true) (hall : AllClear ℓ T fails f enters root) :
    s.errors = [] := by
  obtain ⟨w₀, hw₀, hfin⟩ := Option.bind_eq_some_iff.1 h
  have hwork : ∀ b task w, OnCourse ℓ T enters root task → exec b task = some w →
      (∀ t' ∈ w.spawn, OnCourse ℓ T enters root t') ∧ (∀ e ∈ w.effects, True) ∧
        ∀ e ∈ w.errors, False := by
    intro b task w ht hw
    obtain ⟨hspawn, herr⟩ := hx.onCourse hg hroot hall ht hw
    exact ⟨hspawn, fun _ _ => trivial, by simp [herr]⟩
  have hfirst : OnCourse ℓ T enters root (.list root 0) := ⟨first_page, .inl rfl⟩
  have hnone := (Pool.confined (hwork false _ w₀ hfirst hw₀) hwork hfin).2
  exact eq_nil_iff_forall_not_mem.2 hnone

end

/-- How far a task is from the end: the depth of the tree left, then the pages left. -/
def taskRank (ℓ : Listing C κ) (T : ObjectTree C κ) : WalkTask C → ℕ ×ₗ ℕ
  | .visit p => toLex (2 * (T.depth + 1 - p.length) + 1, 0)
  | .list p k => toLex (2 * (T.depth + 1 - p.length), (ℓ.pages T p).length - k)

/-- INTERNAL: **some schedule finishes** a parallel walk whose callback returns. -/
theorem exists_parallel (hx : Goroutines ℓ T fails f exec)
    (hf : ∀ p, Below T root p → ∃ r, f p (T.isDir p) = some r) :
    ∃ turns s, parallelPool exec root turns = some s := by
  have hreturns : ∀ b task, Underneath ℓ T root task → ∃ w, exec b task = some w := by
    intro b task ht
    refine hx.returns b task fun p hp => ?_
    subst hp
    exact hf p ht
  have hwork : ∀ b task, Underneath ℓ T root task → ∃ w, exec b task = some w ∧
      ∀ t' ∈ w.spawn, Underneath ℓ T root t' ∧ taskRank ℓ T t' < taskRank ℓ T task := by
    intro b task ht
    obtain ⟨w, hw⟩ := hreturns b task ht
    refine ⟨w, hw, fun t' ht' => ⟨(hx.underneath ht hw).1 t' ht', ?_⟩⟩
    cases task with
    | visit p =>
      rcases hx.visit ht.1 hw with ⟨q, _, _, rfl⟩ | ⟨_, es, v, _, _, hspawn, _, _⟩
      · cases ht'
      obtain ⟨-, rfl⟩ := mem_descent.1 (hspawn t' ht').1
      exact Prod.Lex.toLex_lt_toLex.2 (.inl (Nat.lt_succ_self _))
    | list p k =>
      rcases hx.list ht.1 hw with ⟨_, rfl⟩ | ⟨_, rfl⟩ | ⟨_, _, rfl⟩ | ⟨_, _, _, _, hspawn⟩
      · cases ht'
      · cases ht'
      · cases ht'
      · rcases (hspawn t').1 ht' with ⟨page, hpage, c, hc, rfl⟩ | ⟨hmore, rfl⟩
        · have hlen := ObjectTree.length_le_of_occupied
            (ObjectTree.mem_children.1 (mem_of_page hpage hc))
          refine Prod.Lex.toLex_lt_toLex.2 (.inl ?_)
          simp only [length_append, length_singleton] at hlen ⊢
          omega
        · refine Prod.Lex.toLex_lt_toLex.2 (.inr ⟨rfl, ?_⟩)
          show (ℓ.pages T p).length - (k + 1) < (ℓ.pages T p).length - k
          omega
  have hfirst : Underneath ℓ T root (.list root 0) := ⟨first_page, .inl rfl⟩
  obtain ⟨w₀, hw₀⟩ := hreturns false _ hfirst
  obtain ⟨turns, s, hfin⟩ := exists_finish (wellFounded_lt (α := ℕ ×ₗ ℕ)) hwork
    (hx.underneath hfirst hw₀).1
  exact ⟨turns, s, Option.bind_eq_some_iff.2 ⟨w₀, hw₀, hfin⟩⟩

end Pool

end ContainerRegistry.Analysis.Offline
