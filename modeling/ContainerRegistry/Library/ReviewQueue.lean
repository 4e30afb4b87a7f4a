import ContainerRegistry.Library.RowStore

/-!
# Tracking items in a queue of rows

Some rows are *items*, some *refer* to an item and some are *tasks* queued for an item. A store is
`Tracked` when every item that nothing refers to has a task. An `Honest` transaction queues or
removes the item when it removes a reference, queues an item it adds, and removes a task without the
item only if it has seen that the item is `Settled` and holds the task's key. `Effect.Honest` is the
obligation on one statement. Without references a task is a mirror of its item.
-/

namespace ContainerRegistry.Library

/-- Which rows are items, references and tasks, and the unique keys of items and tasks. -/
structure Tracking {R K : Type} (S : Schema R K) (I : Type) where
  item : R → Option I
  refers : R → Option I
  task : R → Option I
  itemKey : I → K
  taskKey : I → K
  itemKey_mem : ∀ {r i}, item r = some i → itemKey i ∈ S.keys r
  taskKey_mem : ∀ {r i}, task r = some i → taskKey i ∈ S.keys r

section Definitions

variable {R K I : Type} {S : Schema R K} (𝒯 : Tracking S I)

/-- Some row is the item `i`. -/
def Tracking.Present (rows : List R) (i : I) : Prop := ∃ r ∈ rows, 𝒯.item r = some i

/-- Some row refers to `i`. -/
def Tracking.Referred (rows : List R) (i : I) : Prop := ∃ r ∈ rows, 𝒯.refers r = some i

/-- Some row queues `i`. -/
def Tracking.Queued (rows : List R) (i : I) : Prop := ∃ r ∈ rows, 𝒯.task r = some i

def Tracking.Tracked (rows : List R) : Prop :=
  ∀ i, 𝒯.Present rows i → 𝒯.Referred rows i ∨ 𝒯.Queued rows i

/-- The item needs no task: it is referred to, or it does not exist. -/
def Tracking.Settled (rows : List R) (i : I) : Prop := 𝒯.Present rows i → 𝒯.Referred rows i

/-- The staged writes `δ` removed the item, and the view they leave has none. -/
def Tracking.Gone (δ : Delta R) (view : List R) (i : I) : Prop :=
  𝒯.Present δ.del i ∧ ¬ 𝒯.Present view i

variable {𝒯}

theorem Tracking.Queued.mono {rows rows' i} (h : 𝒯.Queued rows i)
    (hsub : ∀ r ∈ rows, r ∈ rows') : 𝒯.Queued rows' i := by
  obtain ⟨r, hr, hi⟩ := h
  exact ⟨r, hsub r hr, hi⟩

/-- INTERNAL: values read off rows that own different keys are different, when each value
gives away a key of its row. -/
theorem nodup_filterMap {J : Type} {rows} (h : UniqueKeys S rows) {f : R → Option J}
    {key : J → K} (hkey : ∀ {r j}, f r = some j → key j ∈ S.keys r) : (rows.filterMap f).Nodup := by
  refine List.Pairwise.filterMap f (fun a b hab i ha j hb hij => ?_) h
  subst hij
  exact hab _ (hkey ha) (hkey hb)

/-- **A complete mirror is exact.** Where nothing refers to items, a tracked store in which
every task has its item queues every item exactly once. -/
theorem Tracking.tasks_perm_items {rows} (hu : UniqueKeys S rows)
    (href : ∀ r, 𝒯.refers r = none) (h : 𝒯.Tracked rows)
    (hback : ∀ i, 𝒯.Queued rows i → 𝒯.Present rows i) :
    (rows.filterMap 𝒯.task).Perm (rows.filterMap 𝒯.item) := by
  rw [List.perm_ext_iff_of_nodup (nodup_filterMap hu 𝒯.taskKey_mem)
    (nodup_filterMap hu 𝒯.itemKey_mem)]
  intro i
  rw [List.mem_filterMap, List.mem_filterMap]
  refine ⟨hback i, fun hi => (h i hi).resolve_left ?_⟩
  rintro ⟨r, -, hr⟩
  simp [href r] at hr

end Definitions

section Discipline

variable {R K T I : Type} [DecidableEq R] {S : Schema R K}

/-- What a transaction's staged writes may look like. -/
structure Tracking.Honest (𝒯 : Tracking S I) (s : Store R K T) (t : T) : Prop where
  unreferred : ∀ r ∈ (s.delta t).del, ∀ i, 𝒯.refers r = some i →
    𝒯.Queued (s.delta t).ins i ∨ 𝒯.Gone (s.delta t) (s.view t) i
  added : ∀ r ∈ (s.delta t).ins, ∀ i, 𝒯.item r = some i → 𝒯.Queued (s.delta t).ins i
  unqueued : ∀ r ∈ (s.delta t).del, ∀ i, 𝒯.task r = some i →
    𝒯.Queued (s.delta t).ins i ∨ 𝒯.Gone (s.delta t) (s.view t) i ∨ 𝒯.Settled s.db i

/-- The obligation on one statement of transaction `t`. Only the first statement of a
transaction may remove the task of an item it leaves in place. -/
structure Tracking.HonestEffect (𝒯 : Tracking S I) (s : Store R K T) (t : T)
    (e : Effect R K) : Prop where
  unreferred : ∀ r ∈ e.del, ∀ i, 𝒯.refers r = some i →
    𝒯.Queued e.ins i ∨ 𝒯.Gone e.toDelta (e.toDelta.view (s.view t)) i
  added : ∀ r ∈ e.ins, ∀ i, 𝒯.item r = some i → 𝒯.Queued e.ins i
  unqueued : ∀ r ∈ e.del, ∀ i, 𝒯.task r = some i →
    𝒯.Queued e.ins i ∨
    𝒯.Gone ((s.delta t).andThen e.toDelta) (e.toDelta.view (s.view t)) i ∨
    (s.delta t = ⟨[], []⟩ ∧ 𝒯.Settled s.db i)

variable {𝒯 : Tracking S I} {s : Store R K T} {t u : T}

theorem Tracking.Honest.of_delta_nil (h : s.delta t = ⟨[], []⟩) : 𝒯.Honest s t := by
  constructor <;> simp [h]

variable {e : Effect R K}

/-- INTERNAL: a statement that removes no reference and no task and adds no item meets the
obligation. -/
theorem Tracking.HonestEffect.of_untouched (hdel : ∀ r ∈ e.del, 𝒯.refers r = none ∧ 𝒯.task r = none)
    (hins : ∀ r ∈ e.ins, 𝒯.item r = none) : 𝒯.HonestEffect s t e where
  unreferred r hr i hi := by simp [(hdel r hr).1] at hi
  added r hr i hi := by simp [hins r hr] at hi
  unqueued r hr i hi := by simp [(hdel r hr).2] at hi

/-- What a statement removes has been removed by its transaction. -/
theorem Tracking.Gone.andThen {δ δ' : Delta R} {view i} (h : 𝒯.Gone δ' view i) :
    𝒯.Gone (δ.andThen δ') view i := by
  obtain ⟨⟨r, hr, hi⟩, habs⟩ := h
  exact ⟨⟨r, by simp [hr], hi⟩, habs⟩

/-- INTERNAL: **every item that loses a reference or its task is queued or removed** by the same
statement, and every item that is added is queued. -/
theorem Tracking.HonestEffect.of_gone
    (hdel : ∀ r ∈ e.del, ∀ i, 𝒯.refers r = some i ∨ 𝒯.task r = some i →
      𝒯.Queued e.ins i ∨ 𝒯.Gone e.toDelta (e.toDelta.view (s.view t)) i)
    (hins : ∀ r ∈ e.ins, ∀ i, 𝒯.item r = some i → 𝒯.Queued e.ins i) : 𝒯.HonestEffect s t e where
  unreferred r hr i hi := hdel r hr i (.inl hi)
  added := hins
  unqueued r hr i hi := (hdel r hr i (.inr hi)).imp_right fun hgone => .inl hgone.andThen

/-- Every item that is touched is queued. -/
theorem Tracking.HonestEffect.of_queued
    (hdel : ∀ r ∈ e.del, ∀ i, 𝒯.refers r = some i ∨ 𝒯.task r = some i → 𝒯.Queued e.ins i)
    (hins : ∀ r ∈ e.ins, ∀ i, 𝒯.item r = some i → 𝒯.Queued e.ins i) : 𝒯.HonestEffect s t e :=
  .of_gone (fun r hr i hi => .inl (hdel r hr i hi)) hins

/-- An item is gone where all its rows are deleted, one at least, and none is added. -/
theorem Tracking.Gone.of_deleted {δ rows p i} (hp : p ∈ δ.del)
    (hi : 𝒯.item p = some i) (hins : ∀ r ∈ δ.ins, 𝒯.item r = none)
    (hall : ∀ r ∈ rows, 𝒯.item r = some i → r ∈ δ.del) : 𝒯.Gone δ (δ.view rows) i := by
  refine ⟨⟨p, hp, hi⟩, ?_⟩
  rintro ⟨r, hr, hri⟩
  rcases (Delta.mem_view _ _ _).1 hr with hr | ⟨hr, hdel⟩
  · simp [hins r hr] at hri
  · exact hdel (hall r hr hri)

theorem Tracking.Honest.congr {s'} (h : 𝒯.Honest s t) (hdb : s'.db = s.db)
    (hδ : s'.delta t = s.delta t) : 𝒯.Honest s' t := by
  have hv : s'.view t = s.view t := by simp [Store.view, hdb, hδ]
  constructor
  · simpa only [hδ, hv] using h.unreferred
  · simpa only [hδ] using h.added
  · simpa only [hδ, hv, hdb] using h.unqueued

/-- INTERNAL: a task staged before the statement is still staged, or the statement's own
obligation answers for it. -/
theorem Tracking.HonestEffect.queued_or (he : 𝒯.HonestEffect s t e) {i}
    (h : 𝒯.Queued (s.delta t).ins i) :
    𝒯.Queued ((s.delta t).andThen e.toDelta).ins i ∨
    𝒯.Gone ((s.delta t).andThen e.toDelta) (e.toDelta.view (s.view t)) i := by
  obtain ⟨q, hq, hqi⟩ := h
  by_cases hqd : q ∈ e.del
  · rcases he.unqueued q hqd i hqi with hins | hgone | ⟨hnil, -⟩
    · exact .inl (hins.mono fun r hr => by simp [hr])
    · exact .inr hgone
    · simp [hnil] at hq
  · exact .inl ⟨q, by simp [hq, hqd], hqi⟩

theorem Tracking.HonestEffect.gone_or (he : 𝒯.HonestEffect s t e) {i}
    (h : 𝒯.Gone (s.delta t) (s.view t) i) :
    𝒯.Queued ((s.delta t).andThen e.toDelta).ins i ∨
    𝒯.Gone ((s.delta t).andThen e.toDelta) (e.toDelta.view (s.view t)) i := by
  obtain ⟨⟨p, hp, hpi⟩, habs⟩ := h
  by_cases hpres : 𝒯.Present (e.toDelta.view (s.view t)) i
  · obtain ⟨r, hr, hri⟩ := hpres
    rcases (Delta.mem_view _ _ _).1 hr with hr | hr
    · exact .inl ((he.added r hr i hri).mono fun r hr => by simp [hr])
    · exact absurd ⟨r, hr.1, hri⟩ habs
  · exact .inr ⟨⟨p, by simp [hp], hpi⟩, hpres⟩

variable [DecidableEq T]

/-- INTERNAL: **step lemma.** An honest statement keeps its transaction honest. -/
theorem Tracking.Honest.staged (h : 𝒯.Honest s t) (he : 𝒯.HonestEffect s t e) :
    𝒯.Honest (s.staged S t e) t := by
  constructor
  · intro r hr i hri
    simp only [Store.delta_staged_self, Store.view_staged_self, Delta.mem_andThen_del] at hr ⊢
    rcases hr with hr | hr
    · rcases h.unreferred r hr i hri with hq | hg
      · exact he.queued_or hq
      · exact he.gone_or hg
    · rcases he.unreferred r hr i hri with hq | ⟨⟨p, hp, hpi⟩, habs⟩
      · exact .inl (hq.mono fun r hr => by simp [hr])
      · exact .inr ⟨⟨p, by simp [hp], hpi⟩, habs⟩
  · intro r hr i hri
    simp only [Store.delta_staged_self, Delta.mem_andThen_ins] at hr ⊢
    rcases hr with hr | ⟨hr, hrd⟩
    · exact (he.added r hr i hri).mono fun r hr => by simp [hr]
    · rcases he.queued_or (h.added r hr i hri) with hq | ⟨-, habs⟩
      · exact hq
      · exact absurd ⟨r, by simp [Store.view, hr, hrd], hri⟩ habs
  · intro r hr i hri
    simp only [Store.delta_staged_self, Store.view_staged_self, Delta.mem_andThen_del,
      Store.staged_db] at hr ⊢
    rcases hr with hr | hr
    · rcases h.unqueued r hr i hri with hq | hg | hs
      · exact (he.queued_or hq).imp_right .inl
      · exact (he.gone_or hg).imp_right .inl
      · exact .inr (.inr hs)
    · rcases he.unqueued r hr i hri with hq | hg | ⟨-, hs⟩
      · exact .inl (hq.mono fun r hr => by simp [hr])
      · exact .inr (.inl hg)
      · exact .inr (.inr hs)

/-- **A settled item stays settled** under the commits of others while its task's key is
held: a transaction that would unsettle it has to queue it, and cannot. -/
theorem Tracking.Settled.commit (hs : Sound S s) (ht : 𝒯.Honest s t) (hne : u ≠ t) {i}
    (hheld : s.Holds u (𝒯.taskKey i)) (h : 𝒯.Settled s.db i) : 𝒯.Settled (s.commit t).db i := by
  have hunqueued : ¬ 𝒯.Queued (s.delta t).ins i := fun ⟨q, hq, hqi⟩ =>
    (hs.not_written hne hheld (𝒯.taskKey_mem hqi)).1 hq
  rintro ⟨r, hr, hri⟩
  rcases (Delta.mem_view _ _ _).1 hr with hins | ⟨hdb, -⟩
  · exact absurd (ht.added r hins i hri) hunqueued
  obtain ⟨f, hf, hfi⟩ := h ⟨r, hdb, hri⟩
  by_cases hdel : f ∈ (s.delta t).del
  · rcases ht.unreferred f hdel i hfi with hq | ⟨-, habs⟩
    · exact absurd hq hunqueued
    · exact absurd ⟨r, hr, hri⟩ habs
  · exact ⟨f, (Delta.mem_view _ _ _).2 (.inr ⟨hf, hdel⟩), hfi⟩

/-- What is gone stays so. -/
theorem Tracking.Gone.commit (hs : Sound S s) (hne : u ≠ t) {i}
    (h : 𝒯.Gone (s.delta u) (s.view u) i) :
    𝒯.Gone (s.delta u) ((s.delta u).view (s.commit t).db) i := by
  refine ⟨h.1, ?_⟩
  rintro ⟨r, hr, hri⟩
  obtain ⟨⟨p, hp, hpi⟩, habs⟩ := h
  have hheld : s.Holds u (𝒯.itemKey i) := hs.written u p (.inr hp) _ (𝒯.itemKey_mem hpi)
  rw [Delta.mem_view, hs.mem_commit_iff hne hheld (𝒯.itemKey_mem hri), ← Delta.mem_view] at hr
  exact habs ⟨r, hr, hri⟩

/-- Another session commits. -/
theorem Tracking.Honest.commit (hs : Sound S s) (ht : 𝒯.Honest s t) (hu : 𝒯.Honest s u) :
    𝒯.Honest (s.commit t) u := by
  by_cases hut : u = t
  · subst hut; exact .of_delta_nil (by simp [Store.commit])
  have hδ := s.delta_commit_of_ne hut
  have hv := s.view_commit_of_ne hut
  constructor
  · intro r hr i hri
    rw [hδ] at hr ⊢
    rw [hv]
    exact (hu.unreferred r hr i hri).imp_right fun hg => hg.commit hs hut
  · simpa only [hδ] using hu.added
  · intro r hr i hri
    rw [hδ] at hr ⊢
    rw [hv]
    have hheld : s.Holds u (𝒯.taskKey i) := hs.written u r (.inr hr) _ (𝒯.taskKey_mem hri)
    rcases hu.unqueued r hr i hri with hq | hg | hset
    · exact .inl hq
    · exact .inr (.inl (hg.commit hs hut))
    · exact .inr (.inr (hset.commit hs ht hut hheld))

/-- **The published view is tracked** when the committed rows are and the transaction is
honest. -/
theorem Tracking.tracked_commit (ht : 𝒯.Honest s t) (h : 𝒯.Tracked s.db) :
    𝒯.Tracked (s.commit t).db := by
  intro i ⟨r, hr, hri⟩
  have staged : 𝒯.Queued (s.delta t).ins i →
      𝒯.Referred (s.view t) i ∨ 𝒯.Queued (s.view t) i :=
    fun hq => .inr (hq.mono fun r hr => by simp [Store.view, hr])
  have kept : 𝒯.Referred s.db i → 𝒯.Referred (s.view t) i ∨ 𝒯.Queued (s.view t) i := by
    rintro ⟨f, hf, hfi⟩
    by_cases hdel : f ∈ (s.delta t).del
    · rcases ht.unreferred f hdel i hfi with hq | ⟨-, habs⟩
      · exact staged hq
      · exact absurd ⟨r, hr, hri⟩ habs
    · exact .inl ⟨f, by simp [Store.view, hf, hdel], hfi⟩
  rcases (Delta.mem_view _ _ _).1 hr with hins | ⟨hdb, -⟩
  · exact staged (ht.added r hins i hri)
  -- the item was committed before: its reference or its task survives, or is accounted for
  rcases h i ⟨r, hdb, hri⟩ with href | ⟨q, hq, hqi⟩
  · exact kept href
  by_cases hdel : q ∈ (s.delta t).del
  · rcases ht.unqueued q hdel i hqi with hq | ⟨-, habs⟩ | hset
    · exact staged hq
    · exact absurd ⟨r, hr, hri⟩ habs
    · exact kept (hset ⟨r, hdb, hri⟩)
  · exact .inr ⟨q, by simp [Store.view, hq, hdel], hqi⟩

end Discipline

end ContainerRegistry.Library
