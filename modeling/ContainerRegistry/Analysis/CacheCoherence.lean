import ContainerRegistry.Library.Runs
import ContainerRegistry.Model.LinkedBlobs

/-!
# Coherence of the descriptor cache

An entry in the cache means a link (`Coherent`) as long as the cache is filled only while the link
stands, no `Delete` is between its two requests, and a `Put` without its link goes unnoticed.
-/

namespace ContainerRegistry.Analysis.LinkedBlobs

open Library Model.LinkedBlobs List

variable {s s' : System} {b : Store} {t : Thread} {a : Action} {enabled : Bool}

/-! ## What a call records -/

/-- What the program point of a call says about its record. -/
def Traced (t : Thread) : Prop :=
  match t.pc with
  | .statData _ | .fill => t.linked = true
  | .done .found => t.linked = true
  | .done .failed => t.op = .stat → t.faulted = true
  | _ => True

/-- A `Stat` only reads, and fills the cache. -/
def Reading (t : Thread) : Prop :=
  t.op = .stat → match t.pc with
    | .cacheStat | .readLink _ | .statData _ | .fill => True
    | .done r => r ≠ .ok
    | _ => False

/-- The record of a call, for the store and the system as they are. -/
structure Recorded (link cleared : Bool) (t : Thread) : Prop where
  seen : t.returned = false → link = true → t.linked = true
  quiet : t.returned = false → t.quiet = true → cleared = true
  unlinked : t.quiet = true → t.linked = false
  reading : Reading t

structure Records (s : System) : Prop where
  cleared : s.cleared = true → s.store.link = false
  each : ∀ t ∈ s.threads, Recorded s.store.link s.cleared t

@[simp] theorem note_pc (wrote : Bool) (t : Thread) : (t.note wrote).pc = t.pc := by
  unfold Thread.note
  split <;> rfl

@[simp] theorem note_op (wrote : Bool) (t : Thread) : (t.note wrote).op = t.op := by
  unfold Thread.note
  split <;> rfl

variable {op : Op} {fails : Bool} {pc : Pc} {next : Store × Pc}

theorem advance_active (h : advance b op pc fails = some next) (r : Result) : pc ≠ .done r := by
  rintro rfl
  cases h

theorem returned_iff : t.returned = true ↔ ∃ r, t.pc = .done r := by
  unfold Thread.returned
  cases t.pc <;> simp

theorem advance_link (h : advance b op pc fails = some next) :
    next.1.link = (b.link && !(pc == .clearLink && !fails) || (pc.writesLink && !fails)) := by
  cases pc with
  | done r => cases h
  | _ =>
    cases h
    cases fails <;> simp [Pc.writesLink]

/-- A thread that reads goes on reading. -/
theorem advance_reading (h : advance b t.op t.pc fails = some next) (hr : Reading t) {faulted} :
    Reading { t with pc := next.2, faulted := faulted } := by
  intro hop
  have hr := hr hop
  change t.op = .stat at hop
  rw [hop] at h
  cases hpc : t.pc with
  | cacheStat =>
    rw [hpc] at h
    cases h
    cases fails <;> cases b.cached <;> simp [statFound]
  | readLink fills =>
    rw [hpc] at h
    cases h
    cases fails <;> cases b.link <;> simp
  | statData fills =>
    rw [hpc] at h
    cases h
    cases fails <;> cases b.data <;> cases fills <;> simp [statFound]
  | fill =>
    rw [hpc] at h
    cases h
    simp [statFound]
  | done r =>
    rw [hpc] at h
    cases h
  | _ =>
    rw [hpc] at hr
    cases hr

/-- A thread takes its turn. -/
theorem Recorded.turn {link cleared} (ht : Recorded link cleared t)
    (h : advance b t.op t.pc fails = some next) :
    Recorded link cleared { t with pc := next.2, faulted := t.faulted || fails } := by
  have hactive : t.returned = false := by
    rw [Bool.eq_false_iff]
    intro hret
    obtain ⟨r, hr⟩ := returned_iff.1 hret
    exact advance_active h r hr
  exact {
    seen := fun _ => ht.seen hactive
    quiet := fun _ => ht.quiet hactive
    unlinked := ht.unlinked
    reading := advance_reading h ht.reading }

/-- A thread notes what the others do. -/
theorem Recorded.note {link cleared} (ht : Recorded link cleared t) (deleted wrote : Bool) :
    Recorded (link && !deleted || wrote) ((cleared || deleted) && !wrote) (t.note wrote) := by
  have hreading : Reading (t.note wrote) := by
    unfold Reading
    rw [note_op, note_pc]
    exact ht.reading
  cases hret : t.returned with
  | true =>
    have hsame : t.note wrote = t := by simp [Thread.note, hret]
    rw [hsame] at hreading ⊢
    exact {
      seen := fun h => by simp [hret] at h
      quiet := fun h => by simp [hret] at h
      unlinked := ht.unlinked
      reading := hreading }
  | false =>
    cases wrote with
    | true =>
      have hnote : t.note true = { t with linked := true, quiet := false } := by
        simp [Thread.note, hret]
      rw [hnote] at hreading ⊢
      exact {
        seen := fun _ _ => rfl
        quiet := nofun
        unlinked := nofun
        reading := hreading }
    | false =>
      exact {
        seen := fun h hl => ht.seen h (by
          rw [Bool.or_false, Bool.and_eq_true] at hl
          exact hl.1)
        quiet := fun h hq => by simp [ht.quiet h hq]
        unlinked := ht.unlinked
        reading := hreading }

variable {i : ℕ}

theorem mem_after {u} (hu : u ∈ (s.after i t fails next).threads) :
    ∃ v, u = v.note (t.pc.writesLink && !fails) ∧
      (v ∈ s.threads ∨ v = { t with pc := next.2, faulted := t.faulted || fails }) := by
  obtain ⟨v, hv, rfl⟩ := mem_map.1 hu
  exact ⟨v, rfl, mem_or_eq_of_mem_set hv⟩

theorem request_iff :
    step s (.request i fails) = some s' ↔
      ∃ t next, s.threads[i]? = some t ∧ advance s.store t.op t.pc fails = some next ∧
        s.after i t fails next = s' := by
  simp [step, Option.bind_eq_some_iff]

theorem recorded_start (hs : Records s) :
    Recorded s.store.link s.cleared ⟨op, begin s.deleteEnabled op, s.store.link,
      s.cleared && s.threads.all Thread.returned, false⟩ where
  seen _ h := h
  quiet _ h := (Bool.and_eq_true_iff.1 h).1
  unlinked h := hs.cleared (Bool.and_eq_true_iff.1 h).1
  reading h := by
    change op = .stat at h
    subst h
    trivial

/-- Every step is recorded. -/
theorem records_step (hs : Records s) (h : step s a = some s') : Records s' := by
  cases a with
  | start op =>
    cases h
    refine ⟨hs.cleared, fun t ht => ?_⟩
    rcases mem_append.1 ht with ht | ht
    · exact hs.each t ht
    · rw [mem_singleton] at ht
      rw [ht]
      exact recorded_start hs
  | request i fails =>
    obtain ⟨t, next, ht, hnext, rfl⟩ := request_iff.1 h
    have hlink := advance_link hnext
    constructor
    · intro hcleared
      simp only [System.after, Bool.and_eq_true, Bool.or_eq_true] at hcleared
      show next.1.link = false
      rw [hlink]
      obtain ⟨hold, hwrote⟩ := hcleared
      rw [Bool.not_eq_true'] at hwrote
      rw [hwrote, Bool.or_false]
      rcases hold with hold | hdel
      · rw [hs.cleared hold, Bool.false_and]
      · rw [hdel.1, hdel.2, Bool.true_and, Bool.not_true, Bool.and_false]
    · intro u hu
      obtain ⟨v, rfl, hv⟩ := mem_after hu
      have hrec : Recorded s.store.link s.cleared v := by
        rcases hv with hv | rfl
        · exact hs.each v hv
        · exact (hs.each t (mem_of_getElem? ht)).turn hnext
      have hnote := hrec.note (t.pc == .clearLink && !fails) (t.pc.writesLink && !fails)
      rw [← hlink] at hnote
      exact hnote

theorem records_fresh (b : Store) (enabled : Bool) : Records (fresh b enabled) where
  cleared h := by cases h
  each t ht := by cases ht

/-! ## When the cache agrees with the links -/

/-- A `Delete` has cleared the cache and is about to remove the link. -/
def Deleting (s : System) : Prop := ∃ t ∈ s.threads, t.pc = .clearLink

/-- A `Put` has set the cache and is about to write the link. -/
def Putting (s : System) : Prop := ∃ t ∈ s.threads, t.pc = .putLink

instance : Decidable (Deleting s) := inferInstanceAs (Decidable (∃ t ∈ s.threads, _))

instance : Decidable (Putting s) := inferInstanceAs (Decidable (∃ t ∈ s.threads, _))

/-- A request of a call with this program point keeps the cache coherent, for the state before
the request. -/
def Careful (s : System) (pc : Pc) (fails : Bool) : Prop :=
  match pc, fails with
  -- the cache is read while no `Put` is about to write a link that is not there
  | .cacheStat, false => Putting s → s.store.link = true
  -- the cache is filled while the link is there and not about to be removed
  | .fill, false | .commitCache, false => s.store.link = true ∧ ¬ Deleting s
  | .putCache, false => ¬ Deleting s
  -- a `Put` fails to write the link only if it was there or the cache has lost the entry
  | .putLink, true => s.store.cached = true → s.store.link = true
  | _, _ => True

def CarefulStep (s : System) : Action → Prop
  | .start _ => True
  | .request i fails => ∀ t ∈ s.threads[i]?, Careful s t.pc fails

instance (pc : Pc) (fails : Bool) : Decidable (Careful s pc fails) := by
  unfold Careful
  split <;> infer_instance

instance (s : System) (a : Action) : Decidable (CarefulStep s a) := by
  cases a <;> dsimp only [CarefulStep] <;> infer_instance

structure Coherent (s : System) : Prop where
  undisturbed : s.store.cached = true → ¬ Deleting s
  linked : s.store.cached = true → s.store.link = true ∨ Putting s

theorem pc_after (h : ∃ u ∈ (s.after i t fails next).threads, u.pc = pc) :
    next.2 = pc ∨ ∃ u ∈ s.threads, u.pc = pc := by
  obtain ⟨u, hu, rfl⟩ := h
  obtain ⟨v, rfl, hv | rfl⟩ := mem_after hu
  · exact .inr ⟨v, hv, (note_pc _ v).symm⟩
  · left
    rw [note_pc]

/-- Other threads stay where they are. -/
theorem pc_before (ht : s.threads[i]? = some t) (h : ∃ u ∈ s.threads, u.pc = pc) (hne : t.pc ≠ pc) :
    ∃ u ∈ (s.after i t fails next).threads, u.pc = pc := by
  obtain ⟨u, hu, rfl⟩ := h
  obtain ⟨j, hj⟩ := mem_iff_getElem?.1 hu
  have hij : i ≠ j := by
    rintro rfl
    rw [ht] at hj
    cases hj
    exact hne rfl
  refine ⟨u.note (t.pc.writesLink && !fails), ?_, note_pc _ u⟩
  refine mem_map_of_mem (mem_iff_getElem?.2 ⟨j, ?_⟩)
  rw [List.getElem?_set_ne hij]
  exact hj

def setsCache : Pc → Bool
  | .fill | .putCache | .commitCache => true
  | _ => false

theorem advance_cached (h : advance b op pc fails = some next) :
    next.1.cached = (b.cached && !(pc == .clearCache && !fails) || (setsCache pc && !fails)) := by
  cases pc with
  | done r => cases h
  | _ =>
    cases h
    cases fails <;> simp [setsCache]

/-- The cache is cleared before the link. -/
theorem advance_clearLink (h : advance b op pc fails = some next) (hpc : next.2 = .clearLink) :
    next.1.cached = false := by
  have hstat : statFound op ≠ .clearLink := by cases op <;> simp [statFound]
  cases pc with
  | done r => cases h
  | statData fills =>
    cases h
    revert hpc
    cases fails <;> cases b.data <;> cases fills <;> simp [hstat]
  | _ =>
    cases h
    revert hpc
    cases fails <;> cases b.cached <;> cases b.link <;> simp [hstat]

theorem advance_putLink (h : advance b op .putCache fails = some next) : next.2 = .putLink := by
  cases h
  rfl

theorem next_mem (fails : Bool) (next : Store × Pc) (ht : s.threads[i]? = some t) :
    ∃ u ∈ (s.after i t fails next).threads, u.pc = next.2 := by
  have hmem : { t with pc := next.2, faulted := t.faulted || fails } ∈
      s.threads.set i { t with pc := next.2, faulted := t.faulted || fails } :=
    mem_set (List.getElem?_eq_some_iff.1 ht).1 _
  refine ⟨_, mem_map_of_mem hmem, ?_⟩
  rw [note_pc]

theorem Careful.sets (h : Careful s pc fails) (hset : (setsCache pc && !fails) = true) :
    ¬ Deleting s ∧ (pc = .putCache ∨ pc ≠ .clearLink ∧ s.store.link = true) := by
  obtain ⟨hsets, hfails⟩ := Bool.and_eq_true_iff.1 hset
  rw [Bool.not_eq_true'] at hfails
  subst hfails
  cases pc with
  | fill => exact ⟨h.2, .inr ⟨by decide, h.1⟩⟩
  | putCache => exact ⟨h, .inl rfl⟩
  | commitCache => exact ⟨h.2, .inr ⟨by decide, h.1⟩⟩
  | _ => cases hsets

theorem link_stays (h : advance b op pc fails = some next)
    (hlink : b.link = true) (hpc : pc ≠ .clearLink) : next.1.link = true := by
  rw [advance_link h, hlink, beq_false_of_ne hpc]
  rfl

/-- INTERNAL: a careful request keeps the cache coherent. -/
theorem coherent_request (hs : Coherent s) (ht : s.threads[i]? = some t)
    (hok : Careful s t.pc fails) (h : advance s.store t.op t.pc fails = some next) :
    Coherent (s.after i t fails next) := by
  have hcases : next.1.cached = true →
      s.store.cached = true ∨ (setsCache t.pc && !fails) = true := by
    intro hcached
    rw [advance_cached h, Bool.or_eq_true, Bool.and_eq_true] at hcached
    exact hcached.imp And.left id
  constructor
  · intro hcached hdel
    rcases pc_after hdel with hpc | hdel
    · cases (advance_clearLink h hpc).symm.trans hcached
    · rcases hcases hcached with hold | hset
      · exact hs.undisturbed hold hdel
      · exact (hok.sets hset).1 hdel
  · intro hcached
    rcases hcases hcached with hold | hset
    · have hpc : t.pc ≠ .clearLink := fun hpc =>
        hs.undisturbed hold ⟨t, mem_of_getElem? ht, hpc⟩
      rcases hs.linked hold with hlink | hput
      · exact .inl (link_stays h hlink hpc)
      by_cases hput' : t.pc = .putLink
      · left
        cases fails with
        | false =>
          show next.1.link = true
          rw [advance_link h, hput']
          simp [Pc.writesLink]
        | true =>
          rw [hput'] at hok
          exact link_stays h (hok hold) hpc
      · exact .inr (pc_before ht hput hput')
    · rcases (hok.sets hset).2 with hpc | ⟨hpc, hlink⟩
      · right
        rw [hpc] at h
        have hnext := next_mem fails next ht
        rw [advance_putLink h] at hnext
        exact hnext
      · exact .inl (link_stays h hlink hpc)

/-! ## What a `Stat` reports -/

/-- What a thread has noted is in its trace. -/
theorem traced_note (ht : Traced t) (wrote : Bool) : Traced (t.note wrote) := by
  unfold Thread.note
  split
  · unfold Traced at ht ⊢
    cases hpc : t.pc with
    | done r =>
      rw [hpc] at ht
      cases r with
      | failed => exact ht
      | _ => trivial
    | _ => trivial
  · exact ht

theorem traced_statFound {linked quiet faulted} (h : linked = true) :
    Traced ⟨op, statFound op, linked, quiet, faulted⟩ := by
  cases op with
  | delete => trivial
  | _ => exact h

theorem traced_failed {linked quiet faulted} :
    Traced ⟨op, .done .failed, linked, quiet, faulted || true⟩ := by
  intro _
  exact Bool.or_true _

/-- **A call that reports the blob as present has recorded the link**, if it finds no entry in the
cache without one. -/
theorem traced_next {link cleared fails} (ht : Traced t)
    (hrec : Recorded link cleared t) (hlink : b.link = link)
    (hhit : t.pc = .cacheStat → fails = false → b.cached = true → link = true)
    (h : advance b t.op t.pc fails = some next) :
    Traced { t with pc := next.2, faulted := t.faulted || fails } := by
  obtain ⟨op, pc, linked, quiet, faulted⟩ := t
  cases pc with
  | cacheStat =>
    cases h
    cases fails with
    | true => trivial
    | false =>
      cases hc : b.cached with
      | true => exact traced_statFound (hrec.seen rfl (hhit rfl rfl hc))
      | false => trivial
  | readLink fills =>
    cases h
    cases fails with
    | true => exact traced_failed
    | false =>
      cases hl : b.link with
      | true => exact hrec.seen rfl (hlink.symm.trans hl)
      | false => trivial
  | statData fills =>
    cases h
    cases fails with
    | true => exact traced_failed
    | false =>
      cases b.data with
      | false => trivial
      | true =>
        cases fills with
        | true => exact ht
        | false => exact traced_statFound ht
  | fill =>
    cases h
    exact traced_statFound ht
  | done r => cases h
  | _ =>
    cases h
    cases fails with
    | true => first | trivial | exact traced_failed
    | false => trivial

structure Sound (s : System) : Prop where
  records : Records s
  coherent : Coherent s
  traced : ∀ t ∈ s.threads, Traced t

theorem Coherent.hit (hs : Coherent s) (hok : Careful s .cacheStat false)
    (hcached : s.store.cached = true) : s.store.link = true :=
  (hs.linked hcached).elim id hok

/-- INTERNAL: every careful step is sound. -/
theorem sound_step (hs : Sound s) (hok : CarefulStep s a) (h : step s a = some s') : Sound s' := by
  have hrecords := records_step hs.records h
  cases a with
  | start op =>
    cases h
    refine ⟨hrecords, ⟨fun hcached hdel => ?_, fun hcached => ?_⟩, fun t ht => ?_⟩
    · obtain ⟨t, ht, hpc⟩ := hdel
      rcases mem_append.1 ht with ht | ht
      · exact hs.coherent.undisturbed hcached ⟨t, ht, hpc⟩
      · rw [mem_singleton] at ht
        subst ht
        revert hpc
        cases op <;> cases s.deleteEnabled <;> simp [begin]
    · refine (hs.coherent.linked hcached).imp id ?_
      rintro ⟨t, ht, hpc⟩
      exact ⟨t, mem_append_left _ ht, hpc⟩
    · rcases mem_append.1 ht with ht | ht
      · exact hs.traced t ht
      · rw [mem_singleton] at ht
        subst ht
        cases op with
        | delete =>
          cases s.deleteEnabled with
          | true => trivial
          | false => intro hop; cases hop
        | _ => trivial
  | request i fails =>
    obtain ⟨t, next, ht, hnext, rfl⟩ := request_iff.1 h
    have hok : Careful s t.pc fails := hok t ht
    have hmem := mem_of_getElem? ht
    refine ⟨hrecords, coherent_request hs.coherent ht hok hnext, fun u hu => ?_⟩
    obtain ⟨v, rfl, hv | rfl⟩ := mem_after hu
    · exact traced_note (hs.traced v hv) _
    · refine traced_note (traced_next (hs.traced t hmem) (hs.records.each t hmem) rfl ?_ hnext) _
      rintro hpc rfl hcached
      rw [hpc] at hok
      exact hs.coherent.hit hok hcached

end ContainerRegistry.Analysis.LinkedBlobs
