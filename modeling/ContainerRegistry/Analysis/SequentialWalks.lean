import ContainerRegistry.Model.Walk

/-!
# What a sequential walk sees

`Visited` is the part of the tree a walk is meant to see; `AllClear` says that no request fails in
it and that the callback accepts everything. `Traced` describes a walk, by induction on the fuel.
-/

namespace ContainerRegistry.Analysis.Offline

open Library Model List

variable {C κ E ε : Type} [DecidableEq C]

/-! ## The part of the tree a walk sees -/

/-- The paths a walk of `root` comes to, given the directories its callback enters. -/
inductive Visited (T : ObjectTree C κ) (enters : List C → Bool) (root : List C) :
    List C → Prop where
  | child {c : C} : c ∈ T.children root → Visited T enters root (root ++ [c])
  | deeper {p : List C} {c : C} : Visited T enters root p → enters p = true →
      c ∈ T.children p → Visited T enters root (p ++ [c])

def Below (T : ObjectTree C κ) (root p : List C) : Prop :=
  T.occupied p = true ∧ ∃ c r, p = root ++ c :: r

variable {T : ObjectTree C κ} {enters : List C → Bool} {root p dir : List C} {c : C}

theorem below_child (h : c ∈ T.children root) : Below T root (root ++ [c]) :=
  ⟨ObjectTree.mem_children.1 h, c, [], rfl⟩

theorem Below.trans (h : Below T root dir) (h' : Below T dir p) : Below T root p := by
  obtain ⟨_, c, r, rfl⟩ := h
  obtain ⟨hocc, c', r', rfl⟩ := h'
  exact ⟨hocc, c, r ++ c' :: r', by simp⟩

theorem Visited.isBelow (h : Visited T enters root p) : Below T root p := by
  induction h with
  | child hc => exact below_child hc
  | deeper _ _ hc ih => exact ih.trans (below_child hc)

theorem Visited.from_child (hc : c ∈ T.children root) (henter : enters (root ++ [c]) = true)
    (h : Visited T enters (root ++ [c]) p) : Visited T enters root p := by
  induction h with
  | child hc' => exact Visited.deeper (Visited.child hc) henter hc'
  | deeper _ he hc' ih => exact Visited.deeper ih he hc'

theorem Visited.cases_head (h : Visited T enters root p) :
    ∃ c ∈ T.children root, p = root ++ [c] ∨
      enters (root ++ [c]) = true ∧ Visited T enters (root ++ [c]) p := by
  induction h with
  | child hc => exact ⟨_, hc, .inl rfl⟩
  | deeper _ he hc ih =>
    obtain ⟨c, hc₀, rfl | ⟨he₀, hv⟩⟩ := ih
    · exact ⟨c, hc₀, .inr ⟨he, Visited.child hc⟩⟩
    · exact ⟨c, hc₀, .inr ⟨he₀, Visited.deeper hv he hc⟩⟩

/-- A path is visited if all above are entered. -/
theorem visited_of_below (h : Below T root p)
    (henter : ∀ q c r, p = q ++ c :: r → Below T root q → enters q = true) :
    Visited T enters root p := by
  obtain ⟨hocc, c, r, rfl⟩ := h
  induction r generalizing c root with
  | nil => exact Visited.child (ObjectTree.mem_children.2 hocc)
  | cons c' r ih =>
    have hsplit : root ++ c :: c' :: r = (root ++ [c]) ++ c' :: r := by simp
    have hchild : c ∈ T.children root :=
      ObjectTree.mem_children.2 (ObjectTree.occupied_of_append (hsplit ▸ hocc))
    refine Visited.from_child hchild (henter _ c' r hsplit (below_child hchild)) ?_
    rw [hsplit]
    refine ih c' ?_ (hsplit ▸ hocc)
    intro q c'' r' hq hbelow
    exact henter q c'' r' (hsplit.trans hq) ((below_child hchild).trans hbelow)

/-! ## When nothing goes wrong -/

def Listing.entering (ℓ : Listing C κ) (T : ObjectTree C κ) (p : List C) : List (Request C) :=
  (List.range (ℓ.pages T p).length).map (Request.list p)

/-- The requests made before the callback is called on a path. -/
def Listing.looking (ℓ : Listing C κ) (p : List C) : List (Request C) :=
  if ℓ.stats then [.stat p] else []

/-- Nothing goes wrong at `p`: the requests about it are answered and the callback accepts
it. -/
structure Clear (ℓ : Listing C κ) (T : ObjectTree C κ) (fails : Request C → Bool)
    (f : WalkFn C E ε) (enters : List C → Bool) (p : List C) : Prop where
  looked : ∀ q ∈ Listing.looking ℓ p, fails q = false
  entered : T.isDir p = true → enters p = true → ∀ q ∈ Listing.entering ℓ T p, fails q = false
  accepted : ∀ es e, f p (T.isDir p) ≠ some (es, .fail e)

structure AllClear (ℓ : Listing C κ) (T : ObjectTree C κ) (fails : Request C → Bool)
    (f : WalkFn C E ε) (enters : List C → Bool) (root : List C) : Prop where
  listed : ∀ q ∈ Listing.entering ℓ T root, fails q = false
  clear : ∀ p, Visited T enters root p → Clear ℓ T fails f enters p

/-- The callback enters the directories `enters` names and skips the others; it skips no
file. -/
def Guided (T : ObjectTree C κ) (f : WalkFn C E ε) (enters : List C → Bool) (root : List C) :
    Prop :=
  ∀ p es v, Visited T enters root p → f p (T.isDir p) = some (es, v) →
    (v = .proceed → T.isDir p = true → enters p = true) ∧
    (v = .skip → T.isDir p = true ∧ enters p = false)

variable {ℓ : Listing C κ} {fails : Request C → Bool} {f : WalkFn C E ε}

theorem mem_entering {q} :
    q ∈ Listing.entering ℓ T p ↔ ∃ k < (ℓ.pages T p).length, q = .list p k := by
  unfold Listing.entering
  rw [mem_map]
  constructor
  · rintro ⟨k, hk, rfl⟩
    exact ⟨k, mem_range.1 hk, rfl⟩
  · rintro ⟨k, hk, rfl⟩
    exact ⟨k, mem_range.2 hk, rfl⟩

structure Answered (ℓ : Listing C κ) (T : ObjectTree C κ) (fails : Request C → Bool)
    (enters : List C → Bool) (root : List C) : Prop where
  listed : ∀ q ∈ Listing.entering ℓ T root, fails q = false
  looked : ∀ p, Visited T enters root p → ∀ q ∈ Listing.looking ℓ p, fails q = false
  entered : ∀ p, Visited T enters root p → T.isDir p = true → enters p = true →
    ∀ q ∈ Listing.entering ℓ T p, fails q = false

theorem allClear_iff : AllClear ℓ T fails f enters root ↔
    Answered ℓ T fails enters root ∧
      ∀ p, Visited T enters root p → ∀ es e, f p (T.isDir p) ≠ some (es, .fail e) := by
  constructor
  · intro h
    exact ⟨⟨h.listed, fun p hp => (h.clear p hp).looked, fun p hp => (h.clear p hp).entered⟩,
      fun p hp => (h.clear p hp).accepted⟩
  · rintro ⟨h, haccept⟩
    exact ⟨h.listed, fun p hp => ⟨h.looked p hp, h.entered p hp, haccept p hp⟩⟩

/-! ## Loops -/

section Loops

variable {α : Type} {body : α → Option (Trace C E ε)} {as : List α} {t : Trace C E ε}

omit [DecidableEq C] in
/-- The first entry, and the others. -/
theorem forEach_cons {a} (h : forEach body (a :: as) = some t) :
    ∃ t₁, body a = some t₁ ∧
      ((t₁.flow = .next ∧ ∃ t₂, forEach body as = some t₂ ∧ t = t₁.andThen t₂) ∨
        (t₁.flow ≠ .next ∧ t = t₁)) := by
  rw [forEach, Option.bind_eq_some_iff] at h
  obtain ⟨t₁, h₁, h₂⟩ := h
  refine ⟨t₁, h₁, ?_⟩
  cases hflow : t₁.flow with
  | next =>
    rw [hflow] at h₂
    obtain ⟨t₂, h₃, rfl⟩ := Option.map_eq_some_iff.1 h₂
    exact .inl ⟨rfl, t₂, h₃, rfl⟩
  | stop | error e =>
    rw [hflow] at h₂
    exact .inr ⟨by simp, (Option.some.inj h₂).symm⟩

section

variable (h : forEach body as = some t)
include h

omit [DecidableEq C] in
/-- A loop that goes on has done all entries. -/
theorem forEach_next (hflow : t.flow = .next) :
    ∀ a ∈ as, ∃ t', body a = some t' ∧ t'.flow = .next ∧ (∀ e ∈ t'.effects, e ∈ t.effects) ∧
      t'.count ≤ t.count := by
  induction as generalizing t with
  | nil =>
    intro a ha
    cases ha
  | cons a as ih =>
    obtain ⟨t₁, h₁, ⟨hn, t₂, h₂, rfl⟩ | ⟨hn, rfl⟩⟩ := forEach_cons h
    · intro b hb
      rcases mem_cons.1 hb with rfl | hb
      · exact ⟨t₁, h₁, hn, fun e he => mem_append_left _ he, Nat.le_add_right _ _⟩
      · obtain ⟨t', h', hn', he', hc'⟩ := ih h₂ hflow b hb
        exact ⟨t', h', hn', fun e he => mem_append_right _ (he' e he),
          Nat.le_trans hc' (Nat.le_add_left _ _)⟩
    · exact absurd hflow hn

omit [DecidableEq C] in
/-- A loop ends early because of one element. -/
theorem forEach_not_next (hflow : t.flow ≠ .next) :
    ∃ a ∈ as, ∃ t', body a = some t' ∧ t'.flow = t.flow := by
  induction as generalizing t with
  | nil =>
    cases h
    exact absurd rfl hflow
  | cons a as ih =>
    obtain ⟨t₁, h₁, ⟨_, t₂, h₂, rfl⟩ | ⟨_, rfl⟩⟩ := forEach_cons h
    · obtain ⟨b, hb, t', h', hf'⟩ := ih h₂ hflow
      exact ⟨b, mem_cons_of_mem _ hb, t', h', hf'⟩
    · exact ⟨a, mem_cons_self .., t, h₁, rfl⟩

omit [DecidableEq C] in
/-- Its effects are those of an entry. -/
theorem forEach_effects : ∀ e ∈ t.effects, ∃ a ∈ as, ∃ t', body a = some t' ∧ e ∈ t'.effects := by
  induction as generalizing t with
  | nil =>
    cases h
    intro e he
    cases he
  | cons a as ih =>
    obtain ⟨t₁, h₁, ⟨_, t₂, h₂, rfl⟩ | ⟨_, rfl⟩⟩ := forEach_cons h
    · intro e he
      rcases mem_append.1 he with he | he
      · exact ⟨a, mem_cons_self .., t₁, h₁, he⟩
      · obtain ⟨b, hb, t', h', he'⟩ := ih h₂ e he
        exact ⟨b, mem_cons_of_mem _ hb, t', h', he'⟩
    · exact fun e he => ⟨a, mem_cons_self .., t, h₁, he⟩

omit [DecidableEq C] in
/-- It has counted nothing if no entry has. -/
theorem forEach_count_eq_zero
    (hbody : ∀ a ∈ as, ∀ t', body a = some t' → t'.count = 0) : t.count = 0 := by
  induction as generalizing t with
  | nil =>
    cases h
    rfl
  | cons a as ih =>
    have ha := hbody a mem_cons_self
    obtain ⟨t₁, h₁, ⟨_, t₂, h₂, rfl⟩ | ⟨_, rfl⟩⟩ := forEach_cons h
    · have h₂' := ih h₂ fun b hb => hbody b (mem_cons_of_mem _ hb)
      show t₁.count + t₂.count = 0
      rw [ha t₁ h₁, h₂']
    · exact ha t h₁

end

omit [DecidableEq C] in
theorem forEach_isSome (hbody : ∀ a ∈ as, ∃ t', body a = some t') :
    ∃ t, forEach body as = some t := by
  induction as with
  | nil => exact ⟨_, rfl⟩
  | cons a as ih =>
    obtain ⟨t₁, h₁⟩ := hbody a mem_cons_self
    obtain ⟨t₂, h₂⟩ := ih fun b hb => hbody b (mem_cons_of_mem _ hb)
    rw [forEach, h₁, Option.bind_some, h₂]
    cases t₁.flow with
    | next | stop | error e => exact ⟨_, rfl⟩

end Loops

/-! ## Sequential walks -/

/-- The walk ran to its end exactly if `clear`, with calls on all of `V`; its effects come from
calls within `B`; its error is a failed request, that of a callback within `B`, or tells that
something is `missing`. -/
structure Traced (T : ObjectTree C κ) (f : WalkFn C E ε) (V B : List C → Prop)
    (missing clear : Prop) (t : Trace C E ε) : Prop where
  not_stop : t.flow ≠ .stop
  next_iff : t.flow = .next ↔ clear
  complete : t.flow = .next → ∀ p, V p →
    ∃ es v, f p (T.isDir p) = some (es, v) ∧ ∀ e ∈ es, e ∈ t.effects
  sound : ∀ e ∈ t.effects, ∃ p es v, B p ∧ f p (T.isDir p) = some (es, v) ∧ e ∈ es
  errors : ∀ e, t.flow = .error e →
    (∃ q, e = .failed q) ∨ missing ∨ ∃ p es, B p ∧ f p (T.isDir p) = some (es, .fail e)

/-- What a walk sees from an entry on: the entry, and what it sees below it if it enters. -/
def VisitedFrom (T : ObjectTree C κ) (enters : List C → Bool) (p q : List C) : Prop :=
  q = p ∨ enters p = true ∧ Visited T enters p q

variable {V B : List C → Prop} {missing clear : Prop} {t : Trace C E ε}

theorem Traced.congr {V' : List C → Prop} {clear' : Prop}
    (h : Traced T f V B missing clear t) (hV : ∀ p, V' p → V p) (hc : clear ↔ clear') :
    Traced T f V' B missing clear' t :=
  ⟨h.not_stop, h.next_iff.trans hc, fun hn p hp => h.complete hn p (hV p hp), h.sound, h.errors⟩

theorem Traced.mono {B' : List C → Prop} {missing' : Prop} (h : Traced T f V B missing clear t)
    (hB : ∀ p, B p → B' p) (hm : missing → missing') : Traced T f V B' missing' clear t := by
  refine ⟨h.not_stop, h.next_iff, h.complete, fun e he => ?_, fun e he => ?_⟩
  · obtain ⟨p, es, v, hp, hf, hmem⟩ := h.sound e he
    exact ⟨p, es, v, hB p hp, hf, hmem⟩
  · rcases h.errors e he with hq | hmiss | ⟨p, es, hp, hf⟩
    · exact .inl hq
    · exact .inr (.inl (hm hmiss))
    · exact .inr (.inr ⟨p, es, hB p hp, hf⟩)

/-- INTERNAL: a loop is traced if its entries are. -/
theorem forEach_traced {α : Type} {body : α → Option (Trace C E ε)} {as}
    {V : α → List C → Prop} {clear : α → Prop}
    (hbody : ∀ a ∈ as, ∀ t', body a = some t' → Traced T f (V a) B missing (clear a) t')
    (h : forEach body as = some t) :
    Traced T f (fun p => ∃ a ∈ as, V a p) B missing (∀ a ∈ as, clear a) t := by
  have hstop : t.flow ≠ .stop := by
    intro hs
    obtain ⟨a, ha, t', ht', hflow⟩ := forEach_not_next h (by simp [hs])
    exact (hbody a ha t' ht').not_stop (hflow.trans hs)
  refine ⟨hstop, ⟨fun hn a ha => ?_, fun hall => ?_⟩, fun hn p => ?_, fun e he => ?_,
    fun e he => ?_⟩
  · obtain ⟨t', ht', hn', _, _⟩ := forEach_next h hn a ha
    exact (hbody a ha t' ht').next_iff.1 hn'
  · by_contra hne
    obtain ⟨a, ha, t', ht', hflow⟩ := forEach_not_next h hne
    exact hne (hflow ▸ (hbody a ha t' ht').next_iff.2 (hall a ha))
  · rintro ⟨a, ha, hp⟩
    obtain ⟨t', ht', hn', hsub, _⟩ := forEach_next h hn a ha
    obtain ⟨es, v, hf, hes⟩ := (hbody a ha t' ht').complete hn' p hp
    exact ⟨es, v, hf, fun e he => hsub e (hes e he)⟩
  · obtain ⟨a, ha, t', ht', he'⟩ := forEach_effects h e he
    exact (hbody a ha t' ht').sound e he'
  · obtain ⟨a, ha, t', ht', hflow⟩ := forEach_not_next h (by simp [he])
    exact (hbody a ha t' ht').errors e (hflow.trans he)

theorem not_visited_of_file {q} (h : T.isDir p = false) : ¬ Visited T enters p q := by
  intro hv
  obtain ⟨c, hc, _⟩ := hv.cases_head
  rw [ObjectTree.isDir_of_child hc] at h
  cases h

variable {descend : List C → Option (Trace C E ε)}

section

variable (hg : Guided T f enters root) (hvis : Visited T enters root p)
  (hdesc : ∀ t', T.isDir p = true → enters p = true → descend p = some t' →
    Traced T f (Visited T enters p) (Below T p) (T.isDir p = false)
      (AllClear ℓ T fails f enters p) t')
include hg hvis hdesc

/-- One entry is traced, -/
theorem visitEntry_traced (hlooked : ∀ q ∈ Listing.looking ℓ p, fails q = false)
    (h : visitEntry T f descend p = some t) :
    Traced T f (VisitedFrom T enters p) (fun q => q = p ∨ Below T p q) False
      (∀ q, VisitedFrom T enters p q → Clear ℓ T fails f enters q) t := by
  unfold visitEntry at h
  obtain ⟨⟨es, v⟩, hf, h⟩ := Option.bind_eq_some_iff.1 h
  obtain ⟨hproceed, hskip⟩ := hg p es v hvis hf
  have haccept : ∀ es' e, v ≠ .fail e → f p (T.isDir p) ≠ some (es', .fail e) := by
    intro es' e hv heq
    rw [hf] at heq
    cases heq
    exact hv rfl
  -- where the walk goes no further, the entry is all there is
  have hleaf : ∀ flow, t = ⟨es, 0, flow⟩ → flow = .next → (∀ e, v ≠ .fail e) →
      (∀ q, VisitedFrom T enters p q → q = p) →
      (T.isDir p = true → enters p = true → False) →
      Traced T f (VisitedFrom T enters p) (fun q => q = p ∨ Below T p q) False
        (∀ q, VisitedFrom T enters p q → Clear ℓ T fails f enters q) t := by
    rintro flow rfl rfl hv hself hent
    have hclear : ∀ q, VisitedFrom T enters p q → Clear ℓ T fails f enters q := by
      intro q hq
      rw [hself q hq]
      exact ⟨hlooked, fun hd he => (hent hd he).elim, fun es' e => haccept es' e (hv e)⟩
    refine ⟨by simp, ⟨fun _ => hclear, fun _ => rfl⟩, fun _ q hq => ?_, fun e he => ?_,
      fun e he => by cases he⟩
    · rw [hself q hq]
      exact ⟨es, v, hf, fun e he => he⟩
    · exact ⟨p, es, v, .inl rfl, hf, he⟩
  cases v with
  | proceed =>
    cases hdir : T.isDir p with
    | false =>
      simp only [hdir] at h
      refine hleaf .next (Option.some.inj h).symm rfl (by simp) ?_ (by simp [hdir])
      rintro q (rfl | ⟨_, hv⟩)
      · rfl
      · exact (not_visited_of_file hdir hv).elim
    | true =>
      simp only [hdir, if_true] at h
      obtain ⟨t', ht', rfl⟩ := Option.map_eq_some_iff.1 h
      have hent := hproceed rfl hdir
      have htr := hdesc t' hdir hent ht'
      have hiff : AllClear ℓ T fails f enters p ↔
          ∀ q, VisitedFrom T enters p q → Clear ℓ T fails f enters q := by
        constructor
        · rintro hall q (rfl | ⟨_, hv⟩)
          · exact ⟨hlooked, fun _ _ => hall.listed, fun es' e => haccept es' e (by simp)⟩
          · exact hall.clear q hv
        · intro hall
          exact ⟨(hall p (.inl rfl)).entered hdir hent, fun q hv => hall q (.inr ⟨hent, hv⟩)⟩
      refine ⟨htr.not_stop, htr.next_iff.trans hiff, fun hn q => ?_, fun e he => ?_, fun e he => ?_⟩
      · rintro (rfl | ⟨_, hv⟩)
        · exact ⟨es, .proceed, hf, fun e he => mem_append_left _ he⟩
        · obtain ⟨es', v', hf', hes'⟩ := htr.complete hn q hv
          exact ⟨es', v', hf', fun e he => mem_append_right _ (hes' e he)⟩
      · rcases mem_append.1 he with he | he
        · exact ⟨p, es, .proceed, .inl rfl, hf, he⟩
        · obtain ⟨q, es', v', hq, hf', he'⟩ := htr.sound e he
          exact ⟨q, es', v', .inr hq, hf', he'⟩
      · rcases htr.errors e he with hq | hmiss | ⟨q, es', hq, hf'⟩
        · exact .inl hq
        · rw [hdir] at hmiss
          cases hmiss
        · exact .inr (.inr ⟨q, es', .inr hq, hf'⟩)
  | skip =>
    obtain ⟨hdir, hent⟩ := hskip rfl
    simp only [hdir, if_true] at h
    refine hleaf .next (Option.some.inj h).symm rfl (by simp) ?_ (by simp [hent])
    rintro q (rfl | ⟨he, _⟩)
    · rfl
    · rw [hent] at he
      cases he
  | fail e =>
    cases h
    refine ⟨by simp, ⟨nofun, fun hall => ?_⟩, nofun,
      fun e' he' => ⟨p, es, .fail e, .inl rfl, hf, he'⟩, fun e' he' => ?_⟩
    · exact absurd hf ((hall p (.inl rfl)).accepted es e)
    · cases he'
      exact .inr (.inr ⟨p, es, .inl rfl, hf⟩)

/-- with its stat, -/
theorem statEntry_traced (h : statEntry ℓ T fails f descend p = some t) :
    Traced T f (VisitedFrom T enters p) (fun q => q = p ∨ Below T p q) False
      (∀ q, VisitedFrom T enters p q → Clear ℓ T fails f enters q) t := by
  unfold statEntry at h
  split at h
  · next hfail =>
    rw [Bool.and_eq_true] at hfail
    cases h
    have hnot : ¬ ∀ q, VisitedFrom T enters p q → Clear ℓ T fails f enters q := by
      intro hall
      have hq := (hall p (.inl rfl)).looked (.stat p) (by simp [Listing.looking, hfail.1])
      rw [hfail.2] at hq
      cases hq
    refine ⟨by simp [Trace.still], ⟨by rintro ⟨⟩, fun hall => (hnot hall).elim⟩,
      by rintro ⟨⟩, by rintro _ ⟨⟩, fun e he => ?_⟩
    cases he
    exact .inl ⟨_, rfl⟩
  · next hfail =>
    split at h
    · next hgone => simp [hvis.isBelow.1] at hgone
    refine visitEntry_traced hg hvis hdesc ?_ h
    intro q hq
    unfold Listing.looking at hq
    split at hq
    · next hstats =>
      rw [mem_singleton] at hq
      subst hq
      simpa [hstats] using hfail
    · cases hq

end

variable {page : List C × ℕ}

/-- in a page of the listing, -/
theorem walkPage_traced (hg : Guided T f enters root)
    (hroot : dir = root ∨ Visited T enters root dir ∧ enters dir = true)
    (hpage : ∀ c ∈ page.1, c ∈ T.children dir)
    (hdesc : ∀ p t', Below T dir p → Visited T enters root p → T.isDir p = true → enters p = true →
      descend p = some t' → Traced T f (Visited T enters p) (Below T p) (T.isDir p = false)
        (AllClear ℓ T fails f enters p) t')
    (h : walkPage ℓ T fails f descend dir page = some t) :
    Traced T f (fun q => ∃ c ∈ page.1, VisitedFrom T enters (dir ++ [c]) q) (Below T dir)
      (T.isDir dir = false)
      (fails (.list dir page.2) = false ∧ (ℓ.strict = true → T.isDir dir = true) ∧
        ∀ c ∈ page.1, ∀ q, VisitedFrom T enters (dir ++ [c]) q → Clear ℓ T fails f enters q)
      t := by
  unfold walkPage at h
  split at h
  · next hfail =>
    cases h
    refine ⟨by simp [Trace.still], ⟨nofun, fun hall => ?_⟩, nofun, nofun, fun e he => ?_⟩
    · rw [hfail] at hall
      cases hall.1
    · cases he
      exact .inl ⟨_, rfl⟩
  next hfail =>
  split at h
  · next hmiss =>
    simp only [Bool.and_eq_true, Bool.not_eq_true'] at hmiss
    cases h
    refine ⟨by simp [Trace.still], ⟨nofun, fun hall => ?_⟩,
      nofun, nofun, fun e he => .inr (.inl hmiss.2)⟩
    rw [hall.2.1 hmiss.1] at hmiss
    cases hmiss.2
  next hmiss =>
  obtain ⟨t', ht', rfl⟩ := Option.map_eq_some_iff.1 h
  have htr : Traced T f (fun q => ∃ c ∈ page.1, VisitedFrom T enters (dir ++ [c]) q)
      (Below T dir) (T.isDir dir = false)
      (∀ c ∈ page.1, ∀ q, VisitedFrom T enters (dir ++ [c]) q → Clear ℓ T fails f enters q)
      t' := by
    refine forEach_traced (fun c hc t'' ht'' => ?_) ht'
    have hb := below_child (hpage c hc)
    have hvis : Visited T enters root (dir ++ [c]) := by
      rcases hroot with rfl | ⟨hdirvis, he⟩
      · exact Visited.child (hpage c hc)
      · exact Visited.deeper hdirvis he (hpage c hc)
    refine (statEntry_traced hg hvis (fun t₃ => hdesc _ t₃ hb hvis) ht'').mono ?_ False.elim
    rintro q (rfl | hq)
    · exact hb
    · exact hb.trans hq
  -- the loop over the page is never left early, so the page ends as the loop does
  have hflow : (t'.ofPage page.1.length).flow = t'.flow := by
    have hs := htr.not_stop
    unfold Trace.ofPage
    cases hfl : t'.flow with
    | next => rfl
    | stop => exact absurd hfl hs
    | error e => rfl
  have hstrict : ℓ.strict = true → T.isDir dir = true := by
    intro hs
    simpa [hs] using hmiss
  refine ⟨hflow ▸ htr.not_stop, ?_, fun hn => htr.complete (hflow ▸ hn), htr.sound,
    fun e he => htr.errors e (hflow ▸ he)⟩
  rw [hflow, htr.next_iff]
  exact ⟨fun hall => ⟨by simpa using hfail, hstrict, hall⟩, fun hall => hall.2.2⟩

theorem mem_page (h : page ∈ (ℓ.pages T dir).zipIdx) :
    (∀ c ∈ page.1, c ∈ T.children dir) ∧ page.2 < (ℓ.pages T dir).length := by
  obtain ⟨page, k⟩ := page
  have hk := List.mk_mem_zipIdx_iff_getElem?.1 h
  exact ⟨fun c hc => (ℓ.mem_pages T dir c).1 ⟨page, mem_of_getElem? hk, hc⟩,
    (List.getElem?_eq_some_iff.1 hk).1⟩

theorem exists_page (hc : c ∈ T.children dir) : ∃ page ∈ (ℓ.pages T dir).zipIdx, c ∈ page.1 := by
  obtain ⟨page, hpage, hmem⟩ := (ℓ.mem_pages T dir c).2 hc
  obtain ⟨k, hk⟩ := mem_iff_getElem?.1 hpage
  exact ⟨(page, k), List.mk_mem_zipIdx_iff_getElem?.2 hk, hmem⟩

/-- and in a whole directory. -/
theorem directory_traced {fuel} (hg : Guided T f enters root)
    (hroot : dir = root ∨ Visited T enters root dir ∧ enters dir = true)
    (hdesc : ∀ p t', Below T dir p → Visited T enters root p → T.isDir p = true →
      enters p = true → walkSequential ℓ T fails f fuel p = some t' →
      Traced T f (Visited T enters p) (Below T p) (T.isDir p = false)
        (AllClear ℓ T fails f enters p) t')
    (h : walkSequential ℓ T fails f (fuel + 1) dir = some t) :
    Traced T f (Visited T enters dir) (Below T dir) (T.isDir dir = false)
      ((ℓ.strict = true → T.isDir dir = true) ∧ AllClear ℓ T fails f enters dir) t := by
  have htr := forEach_traced (fun page hpage t' ht' =>
    walkPage_traced hg hroot (mem_page hpage).1 hdesc ht') h
  refine htr.congr (fun q hq => ?_) ⟨fun hall => ?_, fun hall page hpage => ?_⟩
  · obtain ⟨c, hc, hv⟩ := hq.cases_head
    obtain ⟨page, hpage, hmem⟩ := exists_page (ℓ := ℓ) hc
    exact ⟨page, hpage, c, hmem, hv⟩
  · have hpages : (ℓ.pages T dir).zipIdx ≠ [] := by
      simpa using ℓ.pages_ne_nil T dir
    obtain ⟨page₀, hpage₀⟩ := exists_mem_of_ne_nil _ hpages
    refine ⟨(hall page₀ hpage₀).2.1, fun q hq => ?_, fun q hq => ?_⟩
    · obtain ⟨k, hk, rfl⟩ := mem_entering.1 hq
      exact (hall ((ℓ.pages T dir)[k], k)
        (List.mk_mem_zipIdx_iff_getElem?.2 (List.getElem?_eq_getElem hk))).1
    · obtain ⟨c, hc, hv⟩ := hq.cases_head
      obtain ⟨page, hpage, hmem⟩ := exists_page (ℓ := ℓ) hc
      exact (hall page hpage).2.2 c hmem q hv
  · refine ⟨hall.2.listed _ (mem_entering.2 ⟨_, (mem_page hpage).2, rfl⟩), hall.1,
      fun c hc q hq => ?_⟩
    have hc' := (mem_page hpage).1 c hc
    rcases hq with rfl | ⟨he, hv⟩
    · exact hall.2.clear _ (Visited.child hc')
    · exact hall.2.clear q (hv.from_child hc' he)

/-- **The sequential walk** of a directory, with fuel for the depth of the tree below it. -/
theorem walkSequential_traced (hg : Guided T f enters root) (fuel : ℕ)
    (hroot : dir = root ∨ Visited T enters root dir ∧ enters dir = true)
    (hfuel : T.depth ≤ fuel + dir.length) (h : walkSequential ℓ T fails f (fuel + 1) dir = some t) :
    Traced T f (Visited T enters dir) (Below T dir) (T.isDir dir = false)
      ((ℓ.strict = true → T.isDir dir = true) ∧ AllClear ℓ T fails f enters dir) t := by
  induction fuel generalizing dir t with
  | zero =>
    -- the directory is as deep as the tree: nothing lies below it
    have hno : ∀ c, c ∉ T.children dir := by
      intro c hc
      have hlen := ObjectTree.length_le_of_occupied (ObjectTree.mem_children.1 hc)
      rw [length_append, length_singleton] at hlen
      omega
    exact directory_traced hg hroot (fun p t' hp _ _ _ _ => by
      obtain ⟨hocc, c, r, rfl⟩ := hp
      refine absurd (ObjectTree.mem_children.2 ?_) (hno c)
      exact ObjectTree.occupied_of_append (q := r) (by simpa using hocc)) h
  | succ fuel ih =>
    refine directory_traced hg hroot (fun p t' hp hvis hd he ht' => ?_) h
    have hlen : T.depth ≤ fuel + p.length := by
      obtain ⟨_, c, r, rfl⟩ := hp
      simp only [length_append, length_cons]
      omega
    exact (ih (.inr ⟨hvis, he⟩) hlen ht').congr (fun q hq => hq)
      ⟨fun hall => hall.2, fun hall => ⟨fun _ => hd, hall⟩⟩

/-- Each entry of a page is counted. -/
theorem walkPage_count (h : walkPage ℓ T fails f descend dir page = some t) (hn : t.flow = .next) :
    page.1.length ≤ t.count := by
  unfold walkPage at h
  split at h
  · cases h
    cases hn
  · split at h
    · cases h
      cases hn
    · obtain ⟨t', _, rfl⟩ := Option.map_eq_some_iff.1 h
      exact Nat.le_add_left _ _

/-- An empty page counts nothing. -/
theorem walkPage_count_nil (hpage : page.1 = [])
    (h : walkPage ℓ T fails f descend dir page = some t) : t.count = 0 := by
  unfold walkPage at h
  split at h
  · cases h
    rfl
  split at h
  · cases h
    rfl
  · rw [hpage, forEach] at h
    cases h
    rfl

/-- The count tells an empty directory. -/
theorem walkSequential_count {fuel}
    (h : walkSequential ℓ T fails f (fuel + 1) dir = some t) (hn : t.flow = .next) :
    t.count = 0 ↔ T.children dir = [] := by
  constructor
  · intro hzero
    by_contra hne
    obtain ⟨c, hc⟩ := exists_mem_of_ne_nil _ hne
    obtain ⟨page, hpage, hmem⟩ := exists_page (ℓ := ℓ) hc
    obtain ⟨t', ht', hn', _, hle⟩ := forEach_next h hn page hpage
    have hpos := length_pos_of_mem hmem
    have hcount := walkPage_count ht' hn'
    omega
  · intro hnil
    refine forEach_count_eq_zero h fun page hpage t' ht' => walkPage_count_nil ?_ ht'
    rw [eq_nil_iff_forall_not_mem]
    intro c hc
    have := (mem_page hpage).1 c hc
    rw [hnil] at this
    cases this

/-- The walk comes to its end. -/
theorem exists_walkSequential (hf : ∀ p, Below T root p → ∃ r, f p (T.isDir p) = some r)
    (fuel : ℕ) (hroot : dir = root ∨ Below T root dir) :
    ∃ t, walkSequential ℓ T fails f fuel dir = some t := by
  induction fuel generalizing dir with
  | zero => exact ⟨_, rfl⟩
  | succ fuel ih =>
    rw [walkSequential]
    refine forEach_isSome fun page hpage => ?_
    unfold walkPage
    split
    · exact ⟨_, rfl⟩
    split
    · exact ⟨_, rfl⟩
    have hloop : ∃ t, forEach (fun c => statEntry ℓ T fails f
        (walkSequential ℓ T fails f fuel) (dir ++ [c])) page.1 = some t := by
      refine forEach_isSome fun c hc => ?_
      have hb := below_child ((mem_page hpage).1 c hc)
      have hbroot : Below T root (dir ++ [c]) := by
        rcases hroot with rfl | hroot
        · exact hb
        · exact hroot.trans hb
      obtain ⟨r, hr⟩ := hf _ hbroot
      obtain ⟨t', ht'⟩ := ih (.inr hbroot)
      unfold statEntry visitEntry
      rw [hr, ht']
      split
      · exact ⟨_, rfl⟩
      split
      · exact ⟨_, rfl⟩
      rw [Option.bind_some]
      cases r.2 with
      | proceed =>
        cases T.isDir (dir ++ [c]) with
        | true | false => exact ⟨_, rfl⟩
      | skip | fail e => exact ⟨_, rfl⟩
    obtain ⟨t, ht⟩ := hloop
    exact ⟨_, by rw [ht]; rfl⟩

end ContainerRegistry.Analysis.Offline
