import ContainerRegistry.Library.Runs
import ContainerRegistry.Model.DescriptorCache

/-!
# Isolation of repositories that share a descriptor cache

In memory the map of a repository changes only through its own caches. On Redis clearing leaves the
digest a member and empties the shared hash, so the digest is back when another repository sets it.
-/

namespace ContainerRegistry.Analysis.Caches

open Library Model.Caches Function
open Model (Digest)

variable {s s' : System} {r : Redis} {m : Memory} {A : ℕ} {d : Digest} {c : Call}
  {cs : List Call}

/-! ## Calls on a digest -/

/-- The call sets `d`, or a descriptor with the digest `d`, through the repository `A`. -/
def SetsThrough (A : ℕ) (d : Digest) (s : System) : Call → Prop
  | .setDescriptor (some k) d' desc =>
    (∃ x, s.scopes[k]? = some x ∧ x.repo = A) ∧ (d' = d ∨ desc.digest = d)
  | _ => False

def NeverSets (A : ℕ) (d : Digest) (s : System) : List Call → Prop
  | [] => True
  | c :: cs => ¬ SetsThrough A d s c ∧ ∀ s', step s c = some s' → NeverSets A d s' cs

/-- The call fills the shared hash of `d`. -/
def Publishes (d : Digest) : Call → Prop
  | .setDescriptor none d' desc => validateDescriptor desc = none ∧ d' = d
  | .setDescriptor (some _) d' desc =>
    validateDescriptor desc = none ∧
      (d' = desc.digest ∨ d'.algorithm ≠ desc.digest.algorithm) ∧ (d' = d ∨ desc.digest = d)
  | _ => False

def Member (s : System) (repo : ℕ) (d : Digest) : Prop :=
  match s.provider with
  | .memory _ => False
  | .redis r => r.members repo d = true

/-- The call empties the shared hash of `d`. -/
def Withdraws (d : Digest) (s : System) : Call → Prop
  | .clear none d' => d' = d
  | .clear (some k) d' => d' = d ∧ ∃ x, s.scopes[k]? = some x ∧ Member s x.repo d
  | _ => False

/-- Some call of the sequence empties the shared hash of `d`. -/
def Withdrawn (d : Digest) (s : System) : List Call → Prop
  | [] => False
  | c :: cs => Withdraws d s c ∨ ∃ s', step s c = some s' ∧ Withdrawn d s' cs

/-- Some call of the sequence fills the shared hash of `d`, and none after it empties it. -/
def Republished (d : Digest) (s : System) : List Call → Prop
  | [] => False
  | c :: cs => ∃ s', step s c = some s' ∧
      (Publishes d c ∧ ¬ Withdrawn d s' cs ∨ Republished d s' cs)

/-- What becomes of the provider in a call. -/
inductive Calls (p : Provider) (scopes : List Scope) : Call → Provider → Prop
  | opened (repo : ℕ) : Calls p scopes (.repositoryScoped repo) p
  | stat (k : Option ℕ) (d : Digest) : Calls p scopes (.stat k d) p
  | set (d : Digest) (desc : Descriptor) :
    Calls p scopes (.setDescriptor none d desc) (p.setDescriptor none d desc).1
  | scopedSet (k : ℕ) (x : Scope) (hk : scopes[k]? = some x) (d : Digest) (desc : Descriptor) :
    Calls p scopes (.setDescriptor (some k) d desc) (p.setDescriptor (some x) d desc).1
  | clear (d : Digest) : Calls p scopes (.clear none d) (p.clear none d).1
  | scopedClear (k : ℕ) (x : Scope) (hk : scopes[k]? = some x) (d : Digest) :
    Calls p scopes (.clear (some k) d) (p.clear (some x) d).1

/-- There is no other call. -/
theorem calls_of_step (h : step s c = some s') : Calls s.provider s.scopes c s'.provider := by
  obtain ⟨⟨s₁, a⟩, hexec, rfl⟩ := Option.map_eq_some_iff.1 h
  cases c with
  | repositoryScoped repo =>
    cases hexec
    exact .opened repo
  | stat k d =>
    obtain ⟨x, -, heq⟩ := Option.map_eq_some_iff.1 hexec
    cases heq
    exact .stat k d
  | setDescriptor k d desc =>
    obtain ⟨x, hx, heq⟩ := Option.map_eq_some_iff.1 hexec
    cases heq
    cases k with
    | none =>
      cases hx
      exact .set d desc
    | some k =>
      obtain ⟨y, hy, rfl⟩ := Option.map_eq_some_iff.1 hx
      exact .scopedSet k y hy d desc
  | clear k d =>
    obtain ⟨x, hx, heq⟩ := Option.map_eq_some_iff.1 hexec
    cases heq
    cases k with
    | none =>
      cases hx
      exact .clear d
    | some k =>
      obtain ⟨y, hy, rfl⟩ := Option.map_eq_some_iff.1 hx
      exact .scopedClear k y hy d

/-! ## Redis -/

def Known (r : Redis) (d : Digest) : Prop :=
  (r.blobs d).digest.isSome = true ∧ (r.blobs d).size.isSome = true

def Typed (r : Redis) : Prop :=
  ∀ repo d, r.members repo d = true → (r.mediaTypes repo d).isSome = true

/-- A digest is found in its shared hash. -/
theorem stat_ok_iff : (∃ desc, r.stat d = .ok desc) ↔ Known r d := by
  unfold Redis.stat Known
  cases (r.blobs d).digest with
  | none => simp
  | some digest =>
    cases (r.blobs d).size with
    | none | some size => simp

/-- A member is unknown if its hash is empty. -/
theorem scopedStat_unknown_iff (ht : Typed r) (hm : r.members A d = true) :
    r.scopedStat A d = .error .blobUnknown ↔ ¬ Known r d := by
  rw [← stat_ok_iff]
  unfold Redis.scopedStat
  rw [if_neg (by simp [hm])]
  cases hstat : r.stat d with
  | error e =>
    have he : e = .blobUnknown := by
      unfold Redis.stat at hstat
      split at hstat
      · cases hstat
      · cases hstat
        rfl
    simp [he]
  | ok desc =>
    obtain ⟨mediaType, hmt⟩ := Option.isSome_iff_exists.1 (ht A d hm)
    rw [hmt]
    simp

variable {desc : Descriptor} {d' : Digest}

/-- Setting fills the hash. -/
theorem known_setDescriptor : Known (r.setDescriptor d' desc) d ↔ d' = d ∨ Known r d := by
  unfold Known Redis.setDescriptor
  by_cases hd : d' = d
  · subst hd
    simp
  · simp [update_of_ne (Ne.symm hd), hd]

/-- Clearing empties it. -/
theorem known_clear : Known (r.clear d').1 d ↔ Known r d ∧ d' ≠ d := by
  unfold Known Redis.clear
  by_cases hd : d' = d
  · subst hd
    simp
  · simp [update_of_ne (Ne.symm hd), hd]

/-- Setting through a repository fills it, too. -/
theorem known_setOne {repo} :
    Known (r.setOne repo d' desc) d ↔ d' = d ∨ Known r d := known_setDescriptor

/-- It is filled under both digests. -/
theorem known_scopedSet {k repo} :
    Known (r.scopedSet repo d' desc).1 d ↔
      Publishes d (.setDescriptor (some k) d' desc) ∨ Known r d := by
  unfold Redis.scopedSet
  simp only [Publishes]
  generalize validateDescriptor desc = v
  cases v with
  | some e => simp
  | none =>
    simp only [true_and]
    split
    · next hdiff => simp [hdiff]
    next hsame =>
    have hor : d' = desc.digest ∨ d'.algorithm ≠ desc.digest.algorithm := by
      by_contra hcon
      push Not at hcon
      exact hsame ⟨hcon.1, hcon.2⟩
    simp only [hor, true_and]
    split
    · rw [known_setOne, known_setOne, ← or_assoc, or_comm (a := desc.digest = d)]
    · next heq =>
      have heq : d' = desc.digest := not_not.1 heq
      rw [known_setOne, ← heq, or_self]

/-- A member has its media type. -/
theorem typed_setOne (ht : Typed r) {repo} : Typed (r.setOne repo d' desc) := by
  intro n x hx
  simp only [Redis.setOne] at hx ⊢
  split
  · rfl
  · next hne =>
    rw [if_neg hne] at hx
    exact ht n x hx

/-- Members stay. -/
theorem member_setOne {repo n d' x} (h : r.members n x = true) :
    (r.setOne repo d' desc).members n x = true := by
  simp only [Redis.setOne]
  split
  · rfl
  · exact h

/-- Both hold of a whole call. -/
theorem scopedSet_keeps (ht : Typed r) (repo : ℕ) (d' : Digest) (desc : Descriptor) :
    Typed (r.scopedSet repo d' desc).1 ∧
      ∀ n x, r.members n x = true → (r.scopedSet repo d' desc).1.members n x = true := by
  unfold Redis.scopedSet
  split
  · exact ⟨ht, fun _ _ h => h⟩
  · split
    · exact ⟨ht, fun _ _ h => h⟩
    · split
      · exact ⟨typed_setOne (typed_setOne ht), fun _ _ h => member_setOne (member_setOne h)⟩
      · exact ⟨typed_setOne ht, fun _ _ h => member_setOne h⟩

/-- **What a call does to the shared hash**: it is filled when the call fills it, or when it was and
the call does not empty it. -/
theorem known_step (hr : s.provider = .redis r) (ht : Typed r) (h : step s c = some s') :
    ∃ r', s'.provider = .redis r' ∧ Typed r' ∧
      (∀ n x, r.members n x = true → r'.members n x = true) ∧
      (Known r' d ↔ Publishes d c ∨ Known r d ∧ ¬ Withdraws d s c) := by
  have hcalls := calls_of_step h
  generalize s'.provider = p at hcalls ⊢
  rw [hr] at hcalls
  cases hcalls with
  | opened | stat => exact ⟨r, rfl, ht, fun _ _ h => h, by simp [Publishes, Withdraws]⟩
  | set d' desc =>
    cases hv : validateDescriptor desc with
    | some e =>
      exact ⟨r, by simp [Provider.setDescriptor, hv], ht, fun _ _ h => h,
        by simp [Publishes, Withdraws, hv]⟩
    | none =>
      refine ⟨r.setDescriptor d' desc, by simp [Provider.setDescriptor, hv], ht,
        fun _ _ h => h, ?_⟩
      rw [known_setDescriptor]
      simp [Publishes, Withdraws, hv]
  | scopedSet k x _ d' desc =>
    obtain ⟨ht', hmem⟩ := scopedSet_keeps ht x.repo d' desc
    refine ⟨_, rfl, ht', hmem, ?_⟩
    rw [known_scopedSet (k := k)]
    simp [Withdraws]
  | clear d' =>
    refine ⟨(r.clear d').1, rfl, ht, fun _ _ h => h, ?_⟩
    rw [known_clear]
    simp [Publishes, Withdraws]
  | scopedClear k x hk d' =>
    have hw : Withdraws d s (.clear (some k) d') ↔ d' = d ∧ r.members x.repo d = true := by
      simp [Withdraws, Member, hr, hk]
    refine ⟨(r.scopedClear x.repo d').1, rfl, ?_⟩
    rw [hw]
    unfold Redis.scopedClear
    simp only [Publishes, false_or]
    by_cases hmem : r.members x.repo d' = true
    · rw [if_neg (by simp [hmem]), known_clear]
      refine ⟨ht, fun _ _ h => h, and_congr_right fun _ => not_congr ?_⟩
      exact ⟨fun heq => ⟨heq, heq ▸ hmem⟩, And.left⟩
    · rw [if_pos (by simp [hmem])]
      exact ⟨ht, fun _ _ h => h, fun hk => ⟨hk, fun hcon => hmem (hcon.1 ▸ hcon.2)⟩, And.left⟩

/-- **After a sequence of calls** the hash is filled when one has filled it, or it was, and none has
emptied it since. -/
theorem known_run (hr : s.provider = .redis r) (ht : Typed r) (h : run step s cs = some s') :
    ∃ r', s'.provider = .redis r' ∧ Typed r' ∧
      (∀ n x, r.members n x = true → r'.members n x = true) ∧
      (Known r' d ↔ Republished d s cs ∨ Known r d ∧ ¬ Withdrawn d s cs) := by
  induction cs generalizing s r with
  | nil =>
    cases h
    exact ⟨r, hr, ht, fun _ _ h => h, by simp [Republished, Withdrawn]⟩
  | cons c cs ih =>
    simp only [run, Option.bind_eq_some_iff] at h
    obtain ⟨s₁, hstep, hrun⟩ := h
    obtain ⟨r₁, hr₁, ht₁, hm₁, hk₁⟩ := known_step (d := d) hr ht hstep
    obtain ⟨r₂, hr₂, ht₂, hm₂, hk₂⟩ := ih hr₁ ht₁ hrun
    refine ⟨r₂, hr₂, ht₂, fun n x hx => hm₂ n x (hm₁ n x hx), ?_⟩
    have hrep : Republished d s (c :: cs) ↔
        Publishes d c ∧ ¬ Withdrawn d s₁ cs ∨ Republished d s₁ cs := by
      simp [Republished, hstep]
    have hwith : Withdrawn d s (c :: cs) ↔ Withdraws d s c ∨ Withdrawn d s₁ cs := by
      simp [Withdrawn, hstep]
    rw [hk₂, hk₁, hrep, hwith]
    by_cases hlater : Withdrawn d s₁ cs
    · simp [hlater]
    · simp only [hlater, not_false_iff, and_true, or_false]
      rw [or_left_comm, or_assoc]

/-! ## In memory -/

/-- The map of the repository, if there is one, does not have the digest. -/
def Forgotten (m : Memory) (A : ℕ) (d : Digest) : Prop :=
  ∀ repository, m.repositories A = some repository → repository d = none

/-- The provider leaves the maps of the repositories alone. -/
theorem setDescriptor_repositories : (m.setDescriptor d' desc).1.repositories = m.repositories := by
  simp only [Memory.setDescriptor]
  split
  · rfl
  · split
    · rfl
    · split <;> rfl

/-- Clearing forgets. -/
theorem forgotten_clear (h : Forgotten m A d) (repo : ℕ) (d' : Digest) :
    Forgotten { m with
      repositories := update m.repositories repo
        ((m.repositories repo).map fun repository => MapCache.clear repository d') } A d := by
  intro repository hrep
  by_cases hA : A = repo
  · subst hA
    simp only [update_self, Option.map_eq_some_iff] at hrep
    obtain ⟨old, hold, rfl⟩ := hrep
    unfold MapCache.clear
    by_cases hd : d = d'
    · rw [hd, update_self]
    · rw [update_of_ne hd]
      exact h old hold
  · simp only [update_of_ne hA] at hrep
    exact h repository hrep

/-- INTERNAL: a repository's map is not changed through another one, and only at the digest
set. -/
theorem forgotten_scopedSet (h : Forgotten m A d) {repo} (hne : A = repo → d' ≠ d) :
    Forgotten (m.scopedSet repo d' desc).1 A d := by
  have hold : A = repo → ((m.repositories repo).getD fun _ => none) d = none := by
    rintro rfl
    cases hm : m.repositories A with
    | none => rfl
    | some old => exact h old hm
  intro repository hrep
  unfold Memory.scopedSet MapCache.setDescriptor at hrep
  generalize validateDescriptor desc = v at hrep
  by_cases hA : A = repo
  · subst hA
    cases v with
    | some e =>
      simp only [update_self, Option.some.injEq] at hrep
      rw [← hrep]
      exact hold rfl
    | none =>
      simp only [setDescriptor_repositories, update_self, Option.some.injEq] at hrep
      rw [← hrep, update_of_ne (Ne.symm (hne rfl))]
      exact hold rfl
  · apply h repository
    cases v <;> simpa only [setDescriptor_repositories, update_of_ne hA] using hrep

/-- **A digest that a repository's map does not have stays out of it** until it is set through
the repository. -/
theorem forgotten_step (hm : s.provider = .memory m) (hf : Forgotten m A d)
    (hset : ¬ SetsThrough A d s c) (h : step s c = some s') :
    ∃ m', s'.provider = .memory m' ∧ Forgotten m' A d := by
  have hcalls := calls_of_step h
  generalize s'.provider = p at hcalls ⊢
  rw [hm] at hcalls
  cases hcalls with
  | opened | stat => exact ⟨m, rfl, hf⟩
  | set d' desc =>
    refine ⟨_, rfl, ?_⟩
    unfold Forgotten
    rw [setDescriptor_repositories]
    exact hf
  | scopedSet k x hk d' desc =>
    exact ⟨_, rfl, forgotten_scopedSet hf fun hA hd => hset ⟨⟨x, hk, hA.symm⟩, .inl hd⟩⟩
  | clear d' => exact ⟨_, rfl, hf⟩
  | scopedClear k x _ d' =>
    cases hcap : x.captured with
    | true => exact ⟨_, by simp [Provider.clear, hcap], forgotten_clear hf x.repo d'⟩
    | false => exact ⟨m, by simp [Provider.clear, hcap], hf⟩

/-- So it is in a sequence of calls. -/
theorem forgotten_run (hm : s.provider = .memory m) (hf : Forgotten m A d)
    (hset : NeverSets A d s cs) (h : run step s cs = some s') :
    ∃ m', s'.provider = .memory m' ∧ Forgotten m' A d := by
  induction cs generalizing s m with
  | nil =>
    cases h
    exact ⟨m, hm, hf⟩
  | cons c cs ih =>
    simp only [run, Option.bind_eq_some_iff] at h
    obtain ⟨s₁, hstep, hrun⟩ := h
    obtain ⟨m₁, hm₁, hf₁⟩ := forgotten_step hm hf hset.1 hstep
    exact ih hm₁ hf₁ (hset.2 s₁ hstep) hrun

/-! ## After clearing -/

/-- The provider stays in memory. -/
theorem memory_step (hm : ∃ m, s.provider = .memory m) (h : step s c = some s') :
    ∃ m', s'.provider = .memory m' := by
  obtain ⟨m, hm⟩ := hm
  have hcalls := calls_of_step h
  generalize s'.provider = p at hcalls ⊢
  rw [hm] at hcalls
  cases hcalls with
  | scopedClear k x _ d' =>
    unfold Provider.clear
    dsimp only
    split <;> exact ⟨_, rfl⟩
  | _ => exact ⟨_, rfl⟩

/-- A member that is cleared has an empty hash. -/
theorem clear_redis (hr : s.provider = .redis r) {k x}
    (hk : s.scopes[k]? = some x) (hclear : exec s (.clear (some k) d) = some (s', .ok none)) :
    r.members x.repo d = true ∧ s'.provider = .redis (r.clear d).1 := by
  simp only [exec, System.scope, hk, Option.map_some, hr, Option.some.injEq,
    Prod.mk.injEq] at hclear
  obtain ⟨rfl, hans⟩ := hclear
  change (r.scopedClear x.repo d).2 = .ok none at hans
  show _ ∧ Provider.redis (r.scopedClear x.repo d).1 = _
  unfold Redis.scopedClear at hans ⊢
  split at hans
  · cases hans
  · next hmem =>
    rw [if_neg hmem]
    exact ⟨by simpa using hmem, rfl⟩

/-- What is cleared is forgotten. -/
theorem clear_memory (hm : s.provider = .memory m) {k x}
    (hk : s.scopes[k]? = some x) (hclear : exec s (.clear (some k) d) = some (s', .ok none)) :
    ∃ m', s'.provider = .memory m' ∧ Forgotten m' x.repo d := by
  simp only [exec, System.scope, hk, Option.map_some, hm, Option.some.injEq,
    Prod.mk.injEq] at hclear
  obtain ⟨rfl, hans⟩ := hclear
  unfold Provider.clear at hans ⊢
  simp only at hans ⊢
  split at hans
  · next hcap =>
    rw [if_pos hcap]
    refine ⟨_, rfl, ?_⟩
    intro repository hrep
    simp only [update_self, Option.map_eq_some_iff] at hrep
    obtain ⟨old, _, rfl⟩ := hrep
    exact update_self ..
  · cases hans

/-- **A digest that a repository has cleared, and not set since, is unknown to it, unless the
provider is Redis and another one has set the digest, with no one having cleared it since.** -/
theorem stat_after_clear_iff {start s s₁ s₂ s₃ : System} {pre post : List Call} {k j : ℕ}
    {x y : Scope} {answer : Answer} (hstart : start = newMemory ∨ start = newRedis)
    (hpre : run step start pre = some s) (hk : s.scopes[k]? = some x)
    (hclear : exec s (.clear (some k) d) = some (s₁, .ok none)) (hset : NeverSets x.repo d s₁ post)
    (hpost : run step s₁ post = some s₂) (hj : s₂.scopes[j]? = some y) (hsame : y.repo = x.repo)
    (hstat : exec s₂ (.stat (some j) d) = some (s₃, answer)) :
    answer = .error .blobUnknown ↔ (start = newRedis → ¬ Republished d s₁ post) := by
  simp only [exec, System.scope, hj, Option.map_some, Option.some.injEq, Prod.mk.injEq] at hstat
  obtain ⟨-, rfl⟩ := hstat
  rcases hstart with rfl | rfl
  · have hne : newMemory ≠ newRedis := by
      intro h
      cases congrArg System.provider h
    obtain ⟨m, hm⟩ := run_invariant (P := fun s => ∃ m, s.provider = .memory m)
      (fun _ _ _ => memory_step) ⟨_, rfl⟩ hpre
    obtain ⟨m₁, hm₁, hf₁⟩ := clear_memory hm hk hclear
    obtain ⟨m₂, hm₂, hf₂⟩ := forgotten_run hm₁ hf₁ hset hpost
    simp only [hne, false_imp_iff, iff_true, hm₂, Provider.stat, hsame]
    split
    · cases hrep : m₂.repositories x.repo with
      | none => rfl
      | some repository =>
        show MapCache.stat repository d = _
        rw [MapCache.stat, hf₂ repository hrep]
    · rfl
  · have ht₀ : Typed ⟨fun _ => ⟨none, none, none⟩, fun _ _ => false, fun _ _ => none⟩ := by
      intro repo d h
      cases h
    obtain ⟨r, hr, ht, -, -⟩ := known_run (d := d) rfl ht₀ hpre
    obtain ⟨hmem, hr₁⟩ := clear_redis hr hk hclear
    obtain ⟨r₂, hr₂, ht₂, hmem₂, hk₂⟩ := known_run (d := d) hr₁ ht hpost
    have hgone : ¬ Known (r.clear d).1 d := fun h => (known_clear.1 h).2 rfl
    simp only [hr₂, Provider.stat, hsame, true_imp_iff]
    rw [scopedStat_unknown_iff ht₂ (hmem₂ _ _ hmem), hk₂]
    simp [hgone]

def layer : Descriptor := ⟨⟨.sha256, 1⟩, 5, "application/octet-stream"⟩

def shared : List Call :=
  [.repositoryScoped 0, .repositoryScoped 1, .setDescriptor (some 0) layer.digest layer,
    .setDescriptor (some 1) layer.digest layer]

/-- The other repository sets nothing through the first. -/
theorem other_neverSets {x} (hx : s.scopes[1]? = some x) (hA : x.repo ≠ A) :
    NeverSets A d s [.setDescriptor (some 1) desc.digest desc] := by
  refine ⟨?_, fun _ _ => trivial⟩
  rintro ⟨⟨y, hy, hyA⟩, -⟩
  rw [hx] at hy
  cases hy
  exact hA hyA

/-- The answer to the first repository, which has cleared the layer, once the second has set it
again. -/
def Answered (start : System) (answer : Answer) : Prop :=
  ∃ s s₁ s₂ s₃, run step start shared = some s ∧
    exec s (.clear (some 0) layer.digest) = some (s₁, .ok none) ∧
    run step s₁ [.setDescriptor (some 1) layer.digest layer] = some s₂ ∧
    exec s₂ (.stat (some 0) layer.digest) = some (s₃, answer)

/-- In memory the layer stays unknown, on Redis it does not. -/
theorem stat_after_clear_shared :
    (∃ answer, Answered newMemory answer ∧ answer = .error .blobUnknown) ∧
      ∃ answer, Answered newRedis answer ∧ answer ≠ .error .blobUnknown := by
  have hmemory : run step newMemory shared = some _ := rfl
  have hredis : run step newRedis shared = some _ := rfl
  refine ⟨⟨_, ⟨_, _, _, _, hmemory, rfl, rfl, rfl⟩, ?_⟩,
    ⟨_, ⟨_, _, _, _, hredis, rfl, rfl, rfl⟩, ?_⟩⟩
  · refine (stat_after_clear_iff (.inl rfl) hmemory (k := 0) rfl rfl
      (other_neverSets rfl (by decide)) rfl (j := 0) rfl rfl rfl).2 fun h => ?_
    cases congrArg System.provider h
  · intro hunknown
    refine (stat_after_clear_iff (d := layer.digest) (.inr rfl) hredis (k := 0) rfl rfl
      (other_neverSets rfl (by decide)) rfl (j := 0) rfl rfl rfl).1 hunknown rfl ?_
    exact ⟨_, rfl, .inl ⟨⟨rfl, .inl rfl, .inl rfl⟩, id⟩⟩

/-- On Redis the first repository gets the descriptor that the second has set. -/
theorem cleared_layer_returns : ∃ s s₁ s₂ s₃,
    run step newRedis shared = some s ∧
      exec s (.clear (some 0) layer.digest) = some (s₁, .ok none) ∧
      NeverSets 0 layer.digest s₁ [.setDescriptor (some 1) layer.digest layer] ∧
      run step s₁ [.setDescriptor (some 1) layer.digest layer] = some s₂ ∧
      (s₂.scopes[0]?).map Scope.repo = some 0 ∧
      exec s₂ (.stat (some 0) layer.digest) = some (s₃, .ok (some layer)) :=
  ⟨_, _, _, _, rfl, rfl, other_neverSets rfl (by decide), rfl, rfl, rfl⟩

end ContainerRegistry.Analysis.Caches
