import Mathlib.Data.List.Pairwise
import Mathlib.Tactic.Common

/-!
# A transactional row store with row locks and referential integrity

A `Schema` names the unique keys a row owns and the keys its foreign keys point to. Every
transaction works on its own view: the committed rows with its own staged `Delta` laid over them
(read committed). A statement is an `Effect`: the rows it inserts and deletes, the keys it locks and
the keys it has to wait for. `Store.write` answers

* `blocked` while another transaction holds a conflicting lock,
* `violation` when the view it would leave is not `Consistent`,
* `done` otherwise, with the effect staged and its locks taken.

`Sound` is what two-phase locking buys: the committed rows and every open view stay consistent under
any interleaving.
-/

namespace ContainerRegistry.Library

open List

/-- Row lock modes: a foreign key check shares its parent's key, a write excludes everyone. -/
inductive Mode where
  | keyShare
  | exclusive
  deriving DecidableEq, Repr

/-- Two transactions may hold a key together only when both share it. -/
def Mode.compatible : Mode → Mode → Bool
  | .keyShare, .keyShare => true
  | _, _ => false

/-- The constraints on a row: the unique keys it owns, and the keys of other rows its foreign
keys require. -/
structure Schema (R K : Type) where
  keys : R → List K
  parents : R → List K

section Rows

variable {R K : Type} (S : Schema R K)

def UniqueKeys (rows : List R) : Prop := rows.Pairwise fun a b => ∀ k ∈ S.keys a, k ∉ S.keys b

def ParentsPresent (rows : List R) : Prop := ∀ r ∈ rows, ∀ k ∈ S.parents r, ∃ p ∈ rows, k ∈ S.keys p

def Consistent (rows : List R) : Prop := UniqueKeys S rows ∧ ParentsPresent S rows

instance [DecidableEq K] (rows : List R) : Decidable (Consistent S rows) :=
  inferInstanceAs (Decidable (List.Pairwise _ rows ∧
    ∀ r ∈ rows, ∀ k ∈ S.parents r, ∃ p ∈ rows, k ∈ S.keys p))

variable {S}

theorem Consistent.eq_of_key {rows} (h : Consistent S rows) {a b k}
    (ha : a ∈ rows) (hb : b ∈ rows) (hka : k ∈ S.keys a) (hkb : k ∈ S.keys b) : a = b := by
  by_contra hne
  have hsymm : Std.Symm fun a b : R => ∀ k ∈ S.keys a, k ∉ S.keys b :=
    ⟨fun _ _ hab k hb ha => hab k ha hb⟩
  exact h.1.forall ha hb hne k hka hkb

theorem consistent_nil : Consistent S ([] : List R) :=
  ⟨List.Pairwise.nil, fun _ h => absurd h not_mem_nil⟩

/-- Rows with new keys. -/
theorem Consistent.append {rows new} (h : Consistent S rows) (hnew : UniqueKeys S new)
    (hkeys : ∀ a ∈ new, ∀ b ∈ rows, ∀ k ∈ S.keys a, k ∉ S.keys b)
    (hparents : ∀ r ∈ new, ∀ k ∈ S.parents r, ∃ p ∈ new ++ rows, k ∈ S.keys p) :
    Consistent S (new ++ rows) := by
  refine ⟨pairwise_append.2 ⟨hnew, h.1, hkeys⟩, fun r hr k hk => ?_⟩
  rcases mem_append.1 hr with hr | hr
  · exact hparents r hr k hk
  · obtain ⟨p, hp, hkp⟩ := h.2 r hr k hk
    exact ⟨p, mem_append_right _ hp, hkp⟩

/-- Rows nobody refers to may go. -/
theorem Consistent.filter {rows} (h : Consistent S rows) (keep : R → Bool)
    (hkeep : ∀ r ∈ rows, keep r → ∀ p ∈ rows, keep p = false → ∀ k ∈ S.parents r, k ∉ S.keys p) :
    Consistent S (rows.filter keep) := by
  refine ⟨h.1.filter _, fun r hr k hk => ?_⟩
  obtain ⟨hr, hkr⟩ := mem_filter.1 hr
  obtain ⟨p, hp, hkp⟩ := h.2 r hr k hk
  cases hkeepp : keep p with
  | false => exact absurd hkp (hkeep r hr hkr p hp hkeepp k hk)
  | true => exact ⟨p, mem_filter.2 ⟨hp, hkeepp⟩, hkp⟩

end Rows

structure Delta (R : Type) where
  ins : List R
  del : List R

/-- What one statement writes, locks and waits for. The keys of written rows and the parents
of inserted rows are locked without being listed in `lock`. -/
structure Effect (R K : Type) extends Delta R where
  lock : List K
  wait : List K

section Deltas

variable {R K : Type} [DecidableEq R]

/-- The rows a transaction sees: its inserts over the committed rows it has not deleted. -/
def Delta.view (δ : Delta R) (db : List R) : List R := δ.ins ++ db.filter fun r => r ∉ δ.del

def Delta.andThen (δ e : Delta R) : Delta R where
  ins := e.ins ++ δ.ins.filter fun r => r ∉ e.del
  del := δ.del ++ e.del

@[simp] theorem Delta.mem_view (δ : Delta R) (db : List R) (r : R) :
    r ∈ δ.view db ↔ r ∈ δ.ins ∨ (r ∈ db ∧ r ∉ δ.del) := by
  simp [Delta.view]

@[simp] theorem Delta.mem_andThen_ins (δ e : Delta R) (r : R) :
    r ∈ (δ.andThen e).ins ↔ r ∈ e.ins ∨ (r ∈ δ.ins ∧ r ∉ e.del) := by
  simp [Delta.andThen]

@[simp] theorem Delta.mem_andThen_del (δ e : Delta R) (r : R) :
    r ∈ (δ.andThen e).del ↔ r ∈ δ.del ∨ r ∈ e.del := by
  simp [Delta.andThen]

@[simp] theorem Delta.view_nil (db : List R) : (⟨[], []⟩ : Delta R).view db = db := by
  simp [Delta.view]

@[simp] theorem Delta.andThen_nil (δ : Delta R) : δ.andThen ⟨[], []⟩ = δ := by
  simp [Delta.andThen, filter_eq_self.2]

theorem Delta.view_andThen (δ e : Delta R) (db : List R) :
    (δ.andThen e).view db = e.view (δ.view db) := by
  simp [Delta.view, Delta.andThen, filter_filter, Bool.and_comm]

end Deltas

/-- A lock held by transaction `owner`. -/
structure Lock (T K : Type) where
  owner : T
  key : K
  mode : Mode
  deriving DecidableEq, Repr

/-- The committed rows, the locks in force and each transaction's staged writes. -/
structure Store (R K T : Type) where
  db : List R
  locks : List (Lock T K)
  delta : T → Delta R

inductive Answer (σ : Type) where
  | blocked
  | violation
  | done (s : σ)

section Moves

variable {R K T : Type} [DecidableEq R] [DecidableEq K] [DecidableEq T] (S : Schema R K)

def Store.empty : Store R K T := ⟨[], [], fun _ => ⟨[], []⟩⟩

/-- The rows transaction `t` sees. -/
def Store.view (s : Store R K T) (t : T) : List R := (s.delta t).view s.db

variable (s : Store R K T)

/-- Nobody else holds `k` in a mode that conflicts with `m`. -/
def Store.Free (t : T) (k : K) (m : Mode) : Prop :=
  ∀ l ∈ s.locks, l.key = k → l.owner = t ∨ l.mode.compatible m

instance (s : Store R K T) (t : T) (k : K) (m : Mode) : Decidable (s.Free t k m) :=
  inferInstanceAs (Decidable (∀ l ∈ s.locks, l.key = k → l.owner = t ∨ l.mode.compatible m))

def Effect.locks (e : Effect R K) (t : T) : List (Lock T K) :=
  ((e.ins ++ e.del).flatMap S.keys ++ e.lock).map (⟨t, ·, .exclusive⟩) ++
    (e.ins.flatMap S.parents).map (⟨t, ·, .keyShare⟩)

/-- Every lock the statement takes, and every key it waits for, can be had now. -/
def Store.Granted (t : T) (e : Effect R K) : Prop :=
  (∀ l ∈ e.locks S t, s.Free t l.key l.mode) ∧ ∀ k ∈ e.wait, s.Free t k .keyShare

instance (s : Store R K T) (t : T) (e : Effect R K) : Decidable (s.Granted S t e) :=
  inferInstanceAs (Decidable (_ ∧ _))

/-- The store once the statement `e` of transaction `t` is staged. -/
def Store.staged (t : T) (e : Effect R K) : Store R K T where
  db := s.db
  locks := e.locks S t ++ s.locks
  delta := Function.update s.delta t ((s.delta t).andThen e.toDelta)

/-- Run one statement of transaction `t`. -/
def Store.write (t : T) (e : Effect R K) : Answer (Store R K T) :=
  if s.Granted S t e then
    if Consistent S (e.toDelta.view (s.view t)) then .done (s.staged S t e) else .violation
  else .blocked

/-- Forget the staged writes of `t` and release its locks. -/
def Store.release (t : T) (db : List R) : Store R K T where
  db := db
  locks := s.locks.filter fun l => l.owner ≠ t
  delta := Function.update s.delta t ⟨[], []⟩

/-- Publish what `t` has staged. -/
def Store.commit (t : T) : Store R K T := s.release t (s.view t)

/-- Abandon what `t` has staged. -/
def Store.rollback (t : T) : Store R K T := s.release t s.db

/-- Transaction `t` holds the exclusive lock on `k`. -/
def Store.Holds (t : T) (k : K) : Prop := ⟨t, k, .exclusive⟩ ∈ s.locks

/-- Transaction `u` sees in `s'` what it saw in `s` and holds what it held: in between, others have
committed nothing. -/
structure Store.Untouched (u : T) (s s' : Store R K T) : Prop where
  delta : s'.delta u = s.delta u
  db : s'.db = s.db
  holds : ∀ k, s.Holds u k → s'.Holds u k

end Moves

section Releasing

variable {R K T : Type} [DecidableEq T] (s : Store R K T)

@[simp] theorem Store.delta_release_self (t : T) (db : List R) :
    (s.release t db).delta t = ⟨[], []⟩ := by
  simp [Store.release]

theorem Store.delta_release_of_ne {t u} (db : List R) (h : u ≠ t) :
    (s.release t db).delta u = s.delta u := by
  simp [Store.release, h]

theorem Store.delta_rollback_of_ne {t u} (h : u ≠ t) : (s.rollback t).delta u = s.delta u :=
  s.delta_release_of_ne _ h

@[simp] theorem Store.release_db (t : T) (db : List R) : (s.release t db).db = db := rfl

@[simp] theorem Store.rollback_db (t : T) : (s.rollback t).db = s.db := rfl

@[simp] theorem Store.mem_release_locks (t : T) (db : List R) (l : Lock T K) :
    l ∈ (s.release t db).locks ↔ l ∈ s.locks ∧ l.owner ≠ t := by
  simp [Store.release]

theorem Store.Untouched.rollback {s : Store R K T} {t u} (hu : u ≠ t) :
    Store.Untouched u s (s.rollback t) :=
  ⟨s.delta_rollback_of_ne hu, rfl,
    fun _ hheld => (Store.mem_release_locks _ _ _ _).2 ⟨hheld, hu⟩⟩

end Releasing

section Staging

variable {R K T : Type} [DecidableEq R] {S : Schema R K} {s : Store R K T} {e : Effect R K}

theorem Store.Untouched.view {u : T} {s' : Store R K T} (h : Store.Untouched u s s') :
    s'.view u = s.view u := by
  rw [Store.view, Store.view, h.delta, h.db]

variable [DecidableEq T]

section

variable (s)

@[simp] theorem Store.commit_db (t : T) : (s.commit t).db = s.view t := rfl

@[simp] theorem Store.view_commit_self (t : T) : (s.commit t).view t = s.view t := by
  simp [Store.view, Store.commit]

theorem Store.delta_commit_of_ne {t u} (h : u ≠ t) : (s.commit t).delta u = s.delta u :=
  s.delta_release_of_ne _ h

theorem Store.view_commit_of_ne {t u} (h : u ≠ t) :
    (s.commit t).view u = (s.delta u).view (s.view t) := by
  rw [Store.view, s.delta_commit_of_ne h, Store.commit_db]

@[simp] theorem Store.staged_db (t : T) (e : Effect R K) : (s.staged S t e).db = s.db := rfl

@[simp] theorem Store.view_staged_self (t : T) (e : Effect R K) :
    (s.staged S t e).view t = e.toDelta.view (s.view t) := by
  simp [Store.view, Store.staged, Delta.view_andThen]

theorem Store.delta_staged_of_ne {t u} (e : Effect R K) (h : u ≠ t) :
    (s.staged S t e).delta u = s.delta u := by
  simp [Store.staged, h]

@[simp] theorem Store.delta_staged_self (t : T) (e : Effect R K) :
    (s.staged S t e).delta t = (s.delta t).andThen e.toDelta := by
  simp [Store.staged]

theorem Store.holds_staged_lock (t : T) {k} (h : k ∈ e.lock) : (s.staged S t e).Holds t k := by
  simp [Store.Holds, Store.staged, Effect.locks, h]

theorem Store.holds_staged_keys (t : T) {r k}
    (hr : r ∈ e.ins ∨ r ∈ e.del) (hk : k ∈ S.keys r) : (s.staged S t e).Holds t k := by
  simp only [Store.Holds, Store.staged, Effect.locks, map_append, mem_append, mem_map, mem_flatMap]
  exact .inl (.inl (.inl ⟨k, ⟨r, hr, hk⟩, rfl⟩))

end

theorem Store.mem_staged_locks {t l} (h : l ∈ s.locks) : l ∈ (s.staged S t e).locks :=
  mem_append_right _ h

theorem Store.Untouched.staged {t u} (hu : u ≠ t) : Store.Untouched u s (s.staged S t e) :=
  ⟨Store.delta_staged_of_ne _ _ hu, rfl, fun _ => Store.mem_staged_locks⟩

variable [DecidableEq K]

/-- A statement that is granted. -/
theorem Store.write_eq_done {s' : Store R K T} {t : T} (h : s.write S t e = .done s') :
    s.Granted S t e ∧ Consistent S (e.toDelta.view (s.view t)) ∧ s' = s.staged S t e := by
  unfold Store.write at h
  split at h
  next hg =>
    split at h
    next hc => exact ⟨hg, hc, by injection h with h; exact h.symm⟩
    next => exact absurd h (by simp)
  next => exact absurd h (by simp)

/-- One that breaks a constraint. -/
theorem Store.write_eq_violation {t} (h : s.write S t e = .violation) :
    ¬ Consistent S (e.toDelta.view (s.view t)) := by
  unfold Store.write at h
  split at h
  next =>
    split at h
    next => exact absurd h (by simp)
    next hc => exact hc
  next => exact absurd h (by simp)

end Staging

section Soundness

variable {R K T : Type} [DecidableEq R] {S : Schema R K}

/-- What the lock discipline maintains: locks exclude each other, written keys are locked
exclusively, parents of inserted rows are locked, and neither the committed rows nor any open view
breaks a constraint. -/
structure Sound (S : Schema R K) (s : Store R K T) : Prop where
  exclusion : ∀ t u k, s.Holds t k → ∀ m, ⟨u, k, m⟩ ∈ s.locks → u = t
  written : ∀ t r, r ∈ (s.delta t).ins ∨ r ∈ (s.delta t).del → ∀ k ∈ S.keys r, s.Holds t k
  shared : ∀ t, ∀ r ∈ (s.delta t).ins, ∀ k ∈ S.parents r, ∃ m, ⟨t, k, m⟩ ∈ s.locks
  views : ∀ t, Consistent S (s.view t)
  base : Consistent S s.db

theorem Sound.empty : Sound S (Store.empty : Store R K T) where
  exclusion := fun _ _ _ h => absurd h not_mem_nil
  written := fun _ _ h => by simp [Store.empty] at h
  shared := fun _ _ h => absurd h not_mem_nil
  views := fun _ => by simpa [Store.view, Store.empty] using consistent_nil
  base := consistent_nil

variable {s : Store R K T}

section

variable (h : Sound S s)
include h

theorem Sound.not_written {t u} (hne : u ≠ t) {k m}
    (hl : ⟨u, k, m⟩ ∈ s.locks) {r} (hk : k ∈ S.keys r) :
    r ∉ (s.delta t).ins ∧ r ∉ (s.delta t).del := by
  constructor <;> intro hr
  · exact hne (h.exclusion t u k (h.written t r (.inl hr) k hk) m hl)
  · exact hne (h.exclusion t u k (h.written t r (.inr hr) k hk) m hl)

/-- INTERNAL: a commit leaves every other open view with unique keys. What `u` and `t`
inserted cannot clash, both would hold the key. -/
theorem Sound.uniqueKeys_commit {t u} (hne : u ≠ t) :
    UniqueKeys S ((s.delta u).view (s.view t)) := by
  have hu := (h.views u).1
  have ht := (h.views t).1
  simp only [UniqueKeys, Store.view, Delta.view, filter_append, pairwise_append] at *
  refine ⟨hu.1, ⟨ht.1.filter _, (ht.2.1).filter _, ?_⟩, ?_⟩
  · intro a ha b hb
    exact ht.2.2 a (mem_filter.1 ha |>.1) b (mem_filter.1 hb |>.1)
  · intro a ha b hb k hka hkb
    rcases mem_append.1 hb with hb | hb
    · have hheld := h.written u a (.inl ha) k hka
      exact (h.not_written hne hheld hkb).1 (mem_filter.1 hb |>.1)
    · obtain ⟨hb, hdel⟩ := mem_filter.1 hb
      exact hu.2.2 a ha b (mem_filter.2 ⟨mem_filter.1 hb |>.1, hdel⟩) k hka hkb

/-- INTERNAL: a commit leaves every other open view with its parents present. A parent that
`u` relies on is locked by `u`, so `t` has not deleted it, and the other way round. -/
theorem Sound.parentsPresent_commit {t u} (hne : u ≠ t) :
    ParentsPresent S ((s.delta u).view (s.view t)) := by
  intro r hr k hk
  simp only [Store.view, Delta.mem_view] at hr
  rcases hr with hr | ⟨hr | ⟨hr, hrt⟩, hru⟩
  · -- a row `u` inserted
    obtain ⟨p, hp, hkp⟩ := (h.views u).2 r (by simp [Store.view, hr]) k hk
    obtain ⟨m, hm⟩ := h.shared u r hr k hk
    have hpt := (h.not_written hne hm hkp).2
    simp only [Store.view, Delta.mem_view] at hp
    exact ⟨p, by simp only [Store.view, Delta.mem_view]; tauto, hkp⟩
  · -- a row `t` inserted
    obtain ⟨p, hp, hkp⟩ := (h.views t).2 r (by simp [Store.view, hr]) k hk
    obtain ⟨m, hm⟩ := h.shared t r hr k hk
    have hpu := (h.not_written hne.symm hm hkp).2
    exact ⟨p, by simp only [Delta.mem_view]; exact .inr ⟨hp, hpu⟩, hkp⟩
  · -- a committed row that neither deleted
    obtain ⟨p, hp, hkp⟩ := (h.views u).2 r (by simp [Store.view, hr, hru]) k hk
    simp only [Store.view, Delta.mem_view] at hp
    rcases hp with hp | ⟨hp, hpu⟩
    · exact ⟨p, by simp [hp], hkp⟩
    by_cases hpt : p ∈ (s.delta t).del
    · -- `t` replaced the parent, under the same key
      obtain ⟨q, hq, hkq⟩ := (h.views t).2 r (by simp [Store.view, hr, hrt]) k hk
      have hheld := h.written t p (.inr hpt) k hkp
      have hqu := (h.not_written hne.symm hheld hkq).2
      exact ⟨q, by simp only [Delta.mem_view]; exact .inr ⟨hq, hqu⟩, hkq⟩
    · exact ⟨p, by simp only [Store.view, Delta.mem_view]; tauto, hkp⟩

variable [DecidableEq T]

/-- **Frame rule.** A row one of whose keys `u` has locked is neither added nor removed by the
commit of another transaction. -/
theorem Sound.mem_commit_iff {t u} (hne : u ≠ t) {k m}
    (hl : ⟨u, k, m⟩ ∈ s.locks) {r} (hk : k ∈ S.keys r) : r ∈ (s.commit t).db ↔ r ∈ s.db := by
  obtain ⟨hi, hd⟩ := h.not_written hne hl hk
  simp [Store.view, hi, hd]

/-- INTERNAL: rolling back, and more generally giving up the locks and writes of `t` over the
same committed rows, keeps the store sound. -/
theorem Sound.rollback (t : T) : Sound S (s.rollback t) where
  exclusion := fun a b k ha m hb => by
    simp only [Store.Holds, Store.rollback, Store.mem_release_locks] at ha hb
    exact h.exclusion a b k ha.1 m hb.1
  written := fun u r hr k hk => by
    by_cases hu : u = t
    · subst hu; simp [Store.rollback] at hr
    · rw [s.delta_rollback_of_ne hu] at hr
      simpa [Store.Holds, Store.rollback, hu] using h.written u r hr k hk
  shared := fun u r hr k hk => by
    by_cases hu : u = t
    · subst hu; simp [Store.rollback] at hr
    · rw [s.delta_rollback_of_ne hu] at hr
      obtain ⟨m, hm⟩ := h.shared u r hr k hk
      exact ⟨m, by simpa [Store.rollback, hu] using hm⟩
  views := fun u => by
    by_cases hu : u = t
    · subst hu; simpa [Store.view, Store.rollback] using h.base
    · simpa [Store.view, s.delta_rollback_of_ne hu] using h.views u
  base := h.base

/-- INTERNAL: a statement that is granted and leaves its view consistent keeps the store
sound. -/
theorem Sound.staged {t e} (hg : s.Granted S t e)
    (hc : Consistent S (e.toDelta.view (s.view t))) : Sound S (s.staged S t e) where
  exclusion := by
    intro a b k ha m hb
    simp only [Store.Holds, Store.staged, mem_append] at ha hb
    have own : ∀ {c : T} {m' : Mode}, ⟨c, k, m'⟩ ∈ e.locks S t → c = t := by
      intro c m' hcl
      simp only [Effect.locks, mem_append, mem_map, Lock.mk.injEq] at hcl
      rcases hcl with ⟨_, _, hct, _⟩ | ⟨_, _, hct, _⟩ <;> exact hct.symm
    -- a new lock conflicts with an old one only inside one transaction
    rcases ha with ha | ha <;> rcases hb with hb | hb
    · rw [own ha, own hb]
    · rcases hg.1 _ ha _ hb rfl with hbt | hcomp
      · rw [own ha]; exact hbt
      · cases m <;> simp [Mode.compatible] at hcomp
    · rcases hg.1 _ hb _ ha rfl with hat | hcomp
      · rw [own hb]; exact hat.symm
      · cases m <;> simp [Mode.compatible] at hcomp
    · exact h.exclusion a b k ha m hb
  written := by
    intro u r hr k hk
    by_cases hu : u = t
    · subst hu
      simp only [Store.delta_staged_self, Delta.mem_andThen_ins, Delta.mem_andThen_del] at hr
      rcases hr with (hr | hr) | (hr | hr)
      · exact s.holds_staged_keys u (.inl hr) hk
      · exact Store.mem_staged_locks (h.written u r (.inl hr.1) k hk)
      · exact Store.mem_staged_locks (h.written u r (.inr hr) k hk)
      · exact s.holds_staged_keys u (.inr hr) hk
    · rw [Store.delta_staged_of_ne _ _ hu] at hr
      exact Store.mem_staged_locks (h.written u r hr k hk)
  shared := by
    intro u r hr k hk
    by_cases hu : u = t
    · subst hu
      simp only [Store.delta_staged_self, Delta.mem_andThen_ins] at hr
      rcases hr with hr | hr
      · refine ⟨.keyShare, mem_append_left _ (mem_append_right _ ?_)⟩
        exact mem_map.2 ⟨k, mem_flatMap.2 ⟨r, hr, hk⟩, rfl⟩
      · obtain ⟨m, hm⟩ := h.shared u r hr.1 k hk
        exact ⟨m, Store.mem_staged_locks hm⟩
    · rw [Store.delta_staged_of_ne _ _ hu] at hr
      obtain ⟨m, hm⟩ := h.shared u r hr k hk
      exact ⟨m, Store.mem_staged_locks hm⟩
  views := by
    intro u
    by_cases hu : u = t
    · subst hu; simpa using hc
    · simpa [Store.view, Store.delta_staged_of_ne _ _ hu] using h.views u
  base := h.base

/-- **Commits serialise.** Publishing one transaction's view keeps every other open view
consistent. -/
theorem Sound.commit (t : T) : Sound S (s.commit t) where
  exclusion := (h.rollback t).exclusion
  written := (h.rollback t).written
  shared := (h.rollback t).shared
  views := fun u => by
    by_cases hu : u = t
    · subst hu
      simpa [Store.view, Store.commit] using h.views u
    · rw [s.view_commit_of_ne hu]
      exact ⟨h.uniqueKeys_commit hu, h.parentsPresent_commit hu⟩
  base := h.views t

end

end Soundness

end ContainerRegistry.Library
