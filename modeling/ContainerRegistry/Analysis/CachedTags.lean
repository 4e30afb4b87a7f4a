import Mathlib.Data.List.Forall2
import ContainerRegistry.Model.TagStores

/-!
# The cached tag store against the plain one

Only the call that primes the cache reads the storage, and its outcome is not kept. If it meets no
failure the map is the current links of the listed tags (`Synced`).
-/

namespace ContainerRegistry.Analysis.TagStores

open Model.TagStores

variable {T D : Type} {S : Tags T D}

def Answer.Same : Answer T D → Answer T D → Prop
  | .tags l, .tags l' => ∀ t, t ∈ l ↔ t ∈ l'
  | .digest d, .digest d' => d = d'
  | _, _ => False

/-- The cached store answers with an error, or as the plain store does. -/
def Faithful (plain cached : Except Err (Answer T D)) : Prop :=
  ∀ a, cached = .ok a → ∃ b, plain = .ok b ∧ Answer.Same a b

/-- Every call of the run is answered as the plain store answers it without failures, or with an
error. -/
def RefinesPlain [DecidableEq D] (S : Tags T D) (c : Cache T D)
    (calls : List (Call T D × (ℕ → Bool))) : Prop :=
  List.Forall₂ (fun call answer => Faithful (call.1.plain S fun _ => false) answer) calls
    (answers S c calls)

def Tags.Listed (S : Tags T D) (t : T) : Prop := ∃ tags, S.listing = some tags ∧ t ∈ tags

def Tags.Parses (S : Tags T D) : Prop := ∀ t, Tags.Listed S t → S.link t ≠ some none

/-- The call that primes meets no failure and no link that does not parse, and `All` is not used
where a tag has no current link, nor on an unknown repository once the cache is primed. -/
def Clear (S : Tags T D) (c : Cache T D) (call : Call T D) (fails : ℕ → Bool) : Prop :=
  (∀ t, call ≠ .get t) →
    (c.once = false → S.listing ≠ none → (∀ n, fails n = false) ∧ Tags.Parses S) ∧
      (call = .all → (c.once = true → S.listing ≠ none) ∧ ∀ t, Tags.Listed S t → S.link t ≠ none)

def ClearRun [DecidableEq D] (S : Tags T D) :
    Cache T D → List (Call T D × (ℕ → Bool)) → Prop
  | _, [] => True
  | c, (call, fails) :: calls =>
    Clear S c call fails ∧ ClearRun S (call.cached S fails c).1 calls

/-- The map of a primed cache is the current links of the listed tags. -/
structure Synced (S : Tags T D) (c : Cache T D) : Prop where
  fresh : c.once = false → c.tags = []
  parses : c.once = true → Tags.Parses S
  links : c.once = true → ∀ t d, (t, d) ∈ c.tags ↔ Tags.Listed S t ∧ S.link t = some (some d)

variable {fails : ℕ → Bool}

theorem readlink_of_clear (hfails : ∀ n, fails n = false) (n : ℕ) (t : T) :
    readlink S fails n t = match S.link t with
      | none => .error .pathNotFound
      | some none => .error .invalidLink
      | some (some d) => .ok d := by
  unfold readlink
  exact if_neg (by simp [hfails])

/-- The cache is primed with all tags. -/
theorem primeLoop_of_clear (hfails : ∀ n, fails n = false) {tags}
    (hparses : ∀ t ∈ tags, S.link t ≠ some none) (n : ℕ) :
    (primeLoop S fails n tags).2 = none ∧ ∀ t d, (t, d) ∈ (primeLoop S fails n tags).1 ↔
      t ∈ tags ∧ S.link t = some (some d) := by
  induction tags generalizing n with
  | nil => exact ⟨rfl, fun t d => by simp [primeLoop]⟩
  | cons t ts ih =>
    obtain ⟨hnone, hmem⟩ := ih (fun x hx => hparses x (List.mem_cons_of_mem _ hx)) (n + 1)
    have ht := hparses t List.mem_cons_self
    rw [primeLoop, readlink_of_clear hfails]
    cases hlink : S.link t with
    | none =>
      refine ⟨hnone, fun x d => ?_⟩
      rw [hmem, List.mem_cons]
      refine ⟨fun h => ⟨.inr h.1, h.2⟩, fun h => ⟨h.1.resolve_left ?_, h.2⟩⟩
      rintro rfl
      simp [hlink] at h
    | some l =>
      cases l with
      | none => exact absurd hlink ht
      | some d' =>
        refine ⟨hnone, fun x d => ?_⟩
        simp only [List.mem_cons, Prod.mk.injEq, hmem]
        constructor
        · rintro (⟨rfl, rfl⟩ | h)
          · exact ⟨.inl rfl, hlink⟩
          · exact ⟨.inr h.1, h.2⟩
        · rintro ⟨rfl | hx, hd⟩
          · exact .inl ⟨rfl, by simpa [hlink] using hd.symm⟩
          · exact .inr ⟨hx, hd⟩

variable [DecidableEq D]

/-- The plain lookup finds the tags of a digest. -/
theorem lookupLoop_of_clear (hfails : ∀ n, fails n = false) (digest : D) {tags}
    (hparses : ∀ t ∈ tags, S.link t ≠ some none) (n : ℕ) :
    lookupLoop S fails digest n tags =
      .ok (tags.filter fun t => S.link t = some (some digest)) := by
  induction tags generalizing n with
  | nil => rfl
  | cons t ts ih =>
    have ht := hparses t List.mem_cons_self
    rw [lookupLoop, readlink_of_clear hfails,
      ih (fun x hx => hparses x (List.mem_cons_of_mem _ hx)) (n + 1), List.filter_cons]
    cases hlink : S.link t with
    | none => simp
    | some l =>
      cases l with
      | none => exact absurd hlink ht
      | some d => simp [Except.map]

/-! ## One call -/

theorem lookup_plain (hparses : Tags.Parses S) (digest : D) :
    ∃ l, lookup S (fun _ => false) digest = .ok l ∧
      ∀ t, t ∈ l ↔ Tags.Listed S t ∧ S.link t = some (some digest) := by
  unfold lookup all
  cases hlisting : S.listing with
  | none => exact ⟨[], rfl, fun t => by simp [Tags.Listed, hlisting]⟩
  | some tags =>
    refine ⟨_, lookupLoop_of_clear (fun _ => rfl) digest
      (fun t ht => hparses t ⟨tags, hlisting, ht⟩) 1, fun t => ?_⟩
    simp [Tags.Listed, hlisting]

variable {c : Cache T D}

omit [DecidableEq D] in
/-- INTERNAL: **a clear call primes the cache**, or reports an error of an unknown repository. -/
theorem prime_of_clear (h : Synced S c) {call} (hclear : Clear S c call fails)
    (hcall : ∀ t, call ≠ .get t) : Synced S (prime S fails c).1 ∧
      ((prime S fails c).2 = none → (prime S fails c).1.once = true ∧
        (call = .all → S.listing ≠ none)) := by
  obtain ⟨hprime, hall⟩ := hclear hcall
  unfold prime
  cases honce : c.once with
  | true => exact ⟨h, fun _ => ⟨honce, fun hc => (hall hc).1 honce⟩⟩
  | false =>
    cases hlisting : S.listing with
    | none =>
      have hunlisted : ∀ t, ¬ Tags.Listed S t := by simp [Tags.Listed, hlisting]
      have hsynced : Synced S ⟨true, c.tags⟩ :=
        ⟨fun hf => Bool.noConfusion hf, fun _ t ht => absurd ht (hunlisted t),
          fun _ t d => by simp [h.fresh honce, hunlisted t]⟩
      have herr : ∃ e, all S fails = .error e := by
        unfold all
        rw [hlisting]
        split <;> exact ⟨_, rfl⟩
      obtain ⟨e, he⟩ := herr
      simp only [he]
      exact ⟨hsynced, nofun⟩
    | some tags =>
      obtain ⟨hfails, hparses⟩ := hprime honce (by simp [hlisting])
      have hok : all S fails = .ok tags := by simp [all, hfails, hlisting]
      obtain ⟨-, hmem⟩ := primeLoop_of_clear hfails (fun t ht => hparses t ⟨tags, hlisting, ht⟩) 1
      simp only [hok]
      refine ⟨⟨fun hf => Bool.noConfusion hf, fun _ => hparses, fun _ t d => ?_⟩,
        fun _ => ⟨rfl, fun _ => by simp⟩⟩
      refine (hmem t d).trans ?_
      simp [Tags.Listed, hlisting]

omit [DecidableEq D] in
/-- A call without faults keeps the cache in step. -/
theorem serve_of_clear (h : Synced S c) {call} (hclear : Clear S c call fails)
    (hcall : ∀ t, call ≠ .get t) (names : List (T × D) → List T) :
    Synced S (c.serve S fails names).1 ∧ ∀ a, (c.serve S fails names).2 = .ok a →
      ∃ c', Synced S c' ∧ c'.once = true ∧ (call = .all → S.listing ≠ none) ∧
        a = .tags (names c'.tags) := by
  obtain ⟨hsynced, hdone⟩ := prime_of_clear h hclear hcall
  unfold Cache.serve
  cases hprime : prime S fails c with
  | mk c' err =>
    rw [hprime] at hsynced hdone
    cases err with
    | some e => exact ⟨hsynced, nofun⟩
    | none =>
      obtain ⟨honce, hlisting⟩ := hdone rfl
      exact ⟨hsynced, fun a ha => ⟨c', hsynced, honce, hlisting, (Except.ok.inj ha).symm⟩⟩

/-- INTERNAL: **one clear call** is faithful and keeps the cache in step with the storage. -/
theorem cached_of_clear (h : Synced S c) {call} (hclear : Clear S c call fails) :
    Synced S (call.cached S fails c).1 ∧
      Faithful (call.plain S fun _ => false) (call.cached S fails c).2 := by
  cases call with
  | get t =>
    refine ⟨h, fun a ha => ⟨a, ?_, by cases a <;> simp [Answer.Same]⟩⟩
    simp only [Call.cached, Call.plain, Model.TagStores.get, readlink] at ha ⊢
    cases hf : fails 0 with
    | true => simp [hf, Except.map] at ha
    | false => simpa [hf] using ha
  | lookup digest =>
    obtain ⟨hsynced, hserve⟩ := serve_of_clear h hclear (by simp)
      fun tags => (tags.filter (·.2 = digest)).map Prod.fst
    refine ⟨hsynced, fun a ha => ?_⟩
    obtain ⟨c', hc', honce, -, rfl⟩ := hserve a ha
    obtain ⟨l, hl, hmem⟩ := lookup_plain (hc'.parses honce) digest
    refine ⟨.tags l, by rw [Call.plain, hl]; rfl, fun t => ?_⟩
    simp [hmem, hc'.links honce]
  | all =>
    obtain ⟨hsynced, hserve⟩ := serve_of_clear h hclear (by simp) fun tags => tags.map Prod.fst
    refine ⟨hsynced, fun a ha => ?_⟩
    obtain ⟨c', hc', honce, hlisting, rfl⟩ := hserve a ha
    obtain ⟨tags, htags⟩ := Option.ne_none_iff_exists'.1 (hlisting rfl)
    refine ⟨.tags tags, by simp [Call.plain, all, htags, Except.map], fun t => ?_⟩
    have hlisted : Tags.Listed S t ↔ t ∈ tags := by simp [Tags.Listed, htags]
    simp only [List.mem_map, Prod.exists, exists_and_right, exists_eq_right, hc'.links honce]
    constructor
    · rintro ⟨d, ht, -⟩
      exact hlisted.1 ht
    · intro ht
      have hlink := ((hclear (by simp)).2 rfl).2 t (hlisted.2 ht)
      obtain ⟨l, hl⟩ := Option.ne_none_iff_exists'.1 hlink
      cases l with
      | none => exact absurd hl (hc'.parses honce t (hlisted.2 ht))
      | some d => exact ⟨d, hlisted.2 ht, hl⟩

/-! ## Runs -/

theorem answers_of_clear (h : Synced S c) (calls : List (Call T D × (ℕ → Bool)))
    (hclear : ClearRun S c calls) : RefinesPlain S c calls := by
  induction calls generalizing c with
  | nil => exact .nil
  | cons call calls ih =>
    obtain ⟨hsynced, hfaithful⟩ := cached_of_clear h hclear.1
    exact .cons hfaithful (ih hsynced hclear.2)

/-- **The cached tag store refines the plain one** in every run of clear calls: each call returns
what the plain store returns without failures, or an error. -/
theorem cached_refines_plain (S : Tags T D) (calls : List (Call T D × (ℕ → Bool)))
    (hclear : ClearRun S newCache calls) : RefinesPlain S newCache calls := by
  refine answers_of_clear ⟨fun _ => rfl, fun hf => ?_, fun hf => ?_⟩ calls hclear
  · cases hf
  · cases hf

def oneTag : Tags ℕ ℕ := ⟨some [0], fun _ => some (some 7)⟩

/-- The cache is primed by the first call, and the second answers from it. -/
theorem second_call_cached :
    RefinesPlain oneTag newCache [(.lookup 7, fun _ => false), (.all, fun _ => true)] := by
  have hlinked : ∀ t, oneTag.link t ≠ none := fun t => by simp [oneTag]
  refine cached_refines_plain oneTag _ ⟨fun _ => ⟨fun _ _ => ⟨fun _ => rfl, fun t _ => ?_⟩, ?_⟩,
    fun _ => ⟨fun hf => ?_, fun _ => ⟨fun _ => ?_, fun t _ => hlinked t⟩⟩, trivial⟩
  · simp [oneTag]
  · intro hf
    cases hf
  · cases hf
  · simp [oneTag]

/-- **A failure of the call that primes is forgotten**: the second `All` finds no tags and reports
no error. -/
theorem failed_priming_forgotten :
    ¬ RefinesPlain oneTag newCache [(.all, fun n => n == 1), (.all, fun _ => false)] := by
  intro h
  cases h with
  | cons _ h =>
    cases h with
    | cons h _ =>
      obtain ⟨b, hb, hsame⟩ := h (.tags []) rfl
      obtain rfl : Answer.tags [0] = b := Except.ok.inj hb
      exact absurd ((hsame 0).2 List.mem_cons_self) List.not_mem_nil

end ContainerRegistry.Analysis.TagStores
