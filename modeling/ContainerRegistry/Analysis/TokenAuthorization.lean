import ContainerRegistry.Model.TokenAuth

/-!
# What a token is good for

The bounds of the time are those of the claims up to `lastUnix`; a later expiry counts as past, a
later start as reached. An access to a resource with a class is never granted, and a null entry of
the access claim makes the decision panic.
-/

namespace ContainerRegistry.Analysis.Tokens

open Model.Tokens List

variable {Key Cert : Type} (P : Primitives Key Cert) (ac : AccessController Key Cert)

/-! ## What is to be granted -/

/-- The certificates of a field `x5c` make a chain to a root, and its first one is for the key. -/
def ChainTo (x5c : List Str) (key : Key) : Prop :=
  ∃ leaf rest leafCert intermediates, x5c = leaf :: rest ∧ parseCert P leaf = some leafCert ∧
    rest.mapM (parseCert P) = some intermediates ∧
    P.verifyCertificate ac.rootCerts intermediates leafCert = true ∧
    P.publicKey leafCert = some key

/-- **The key that a header names is trusted**: by a chain of certificates, or else by itself or its
own chain, or else by the identifier of a trusted key. -/
inductive Trusted : Header → Key → Prop
  | chain (h : Header) (key : Key) : h.x5c ≠ [] → ChainTo P ac h.x5c key → Trusted h key
  | trustedJWK (h : Header) (key : Key) (raw : Bytes) : h.x5c = [] → h.rawJWK = some raw →
      P.unmarshalJWK raw = some (key, none) → (ac.trustedKeys (P.keyID key)).isSome = true →
      Trusted h key
  | chainedJWK (h : Header) (key leafKey : Key) (raw : Bytes) (x5c : List Str) : h.x5c = [] →
      h.rawJWK = some raw → P.unmarshalJWK raw = some (key, some (x5c.map some)) → [] ∉ x5c →
      ChainTo P ac x5c leafKey → P.keyID key = P.keyID leafKey → Trusted h key
  | keyID (h : Header) (key : Key) : h.x5c = [] → h.rawJWK = none → h.keyID ≠ [] →
      ac.trustedKeys h.keyID = some key → Trusted h key

/-- The token is signed with a trusted key, by the issuer and for the service of the registry. -/
structure Signed (t : Token) : Prop where
  issuer : t.claims.issuer = ac.issuer
  audience : t.claims.audience = ac.service
  signature : t.signature ≠ []
  key : ∃ key, Trusted P ac t.header key ∧ P.verify key t.raw t.header.signingAlg t.signature = true

def nanoseconds (now : Clock) : Int := now.sec * 1000000000 + now.nsec

def Unexpired (now : Clock) (t : Token) : Prop :=
  nanoseconds now ≤ (t.claims.expiration.val + leeway) * 1000000000

def Started (now : Clock) (t : Token) : Prop :=
  (t.claims.notBefore.val - leeway) * 1000000000 ≤ nanoseconds now

structure Verified (now : Clock) (t : Token) : Prop where
  signed : Signed P ac t
  unexpired : Unexpired now t
  started : Started now t

/-- **Some entry of the access claim has the access.** -/
def Grants (entries : List (Option ResourceActions)) (access : Access) : Prop :=
  ∃ ra, some ra ∈ entries ∧ ra.type = access.resource.type ∧ ra.name = access.resource.name ∧
    ("*".toList ∈ ra.actions ∨ access.action ∈ ra.actions)

def Carries (authorization : Option Str) (t : Token) : Prop :=
  ∃ header rawToken, authorization = some header ∧ bearer header = some rawToken ∧
    newToken P rawToken = some t

def Succeeds (o : Outcome) : Prop := ∃ user rs, o = .granted user rs

/-! ## Keys -/

/-- A chain is accepted exactly if it leads to a root. -/
theorem parseAndVerifyCertChain_iff (x5c : List Str) (key : Key) :
    parseAndVerifyCertChain P x5c ac.rootCerts = some key ↔ ChainTo P ac x5c key := by
  cases x5c with
  | nil => simp [parseAndVerifyCertChain, ChainTo]
  | cons leaf rest =>
    simp only [parseAndVerifyCertChain, Option.bind_eq_bind, Option.bind_eq_some_iff, ChainTo,
      List.cons.injEq]
    constructor
    · rintro ⟨leafCert, hleaf, intermediates, hrest, h⟩
      split at h
      · exact ⟨leaf, rest, leafCert, intermediates, ⟨rfl, rfl⟩, hleaf, hrest, by assumption, h⟩
      · cases h
    · rintro ⟨_, _, leafCert, intermediates, ⟨rfl, rfl⟩, hleaf, hrest, hverify, hkey⟩
      exact ⟨leafCert, hleaf, intermediates, hrest, by rw [if_pos hverify, hkey]⟩

/-- Every entry is there. -/
theorem mapM_filter_iff (vals : List (Option Str)) (x5c : List Str) :
    (vals.mapM fun val => val.filter fun certString => certString ≠ []) = some x5c ↔
      vals = x5c.map some ∧ [] ∉ x5c := by
  induction vals generalizing x5c with
  | nil => cases x5c <;> simp
  | cons val vals ih =>
    simp only [mapM_cons, Option.bind_eq_bind, Option.bind_eq_some_iff, Option.pure_def,
      Option.some.injEq, Option.filter_eq_some_iff, decide_eq_true_eq]
    constructor
    · rintro ⟨s, ⟨rfl, hs⟩, rest, hrest, rfl⟩
      obtain ⟨rfl, hne⟩ := (ih rest).1 hrest
      simp only [map_cons, mem_cons, not_or, true_and]
      exact ⟨Ne.symm hs, hne⟩
    · rintro ⟨hvals, hne⟩
      cases x5c with
      | nil => cases hvals
      | cons s rest =>
        simp only [map_cons, List.cons.injEq, mem_cons, not_or] at hvals hne
        exact ⟨s, ⟨hvals.1, Ne.symm hne.1⟩, rest, (ih rest).2 ⟨hvals.2, hne.2⟩, rfl⟩

/-- A key is accepted exactly if it is trusted. -/
theorem parseAndVerifyRawJWK_iff (raw : Bytes) (key : Key) :
    parseAndVerifyRawJWK P ac raw = some key ↔
      (P.unmarshalJWK raw = some (key, none) ∧ (ac.trustedKeys (P.keyID key)).isSome = true) ∨
      ∃ leafKey x5c, P.unmarshalJWK raw = some (key, some (x5c.map some)) ∧ [] ∉ x5c ∧
        ChainTo P ac x5c leafKey ∧ P.keyID key = P.keyID leafKey := by
  unfold parseAndVerifyRawJWK
  split
  next h => simp [h]
  next pubKey h =>
    simp only [h, Option.some.injEq, Prod.mk.injEq, and_true, reduceCtorEq, and_false, false_and,
      exists_const, Option.ite_none_right_eq_some]
    constructor
    · rintro ⟨htrusted, rfl⟩
      exact .inl ⟨rfl, htrusted⟩
    · rintro (⟨rfl, htrusted⟩ | ⟨_, hfalse⟩)
      · exact ⟨htrusted, rfl⟩
      · exact hfalse.elim
  next pubKey vals h =>
    simp only [h, Option.some.injEq, Prod.mk.injEq, reduceCtorEq, and_false, false_and, false_or,
      Option.bind_eq_bind, Option.bind_eq_some_iff, mapM_filter_iff]
    constructor
    · rintro ⟨x5c, ⟨hvals, hne⟩, leafKey, hchain, hkey⟩
      split at hkey
      · cases hkey
      · cases hkey
        exact ⟨leafKey, x5c, ⟨rfl, hvals⟩, hne,
          (parseAndVerifyCertChain_iff P ac x5c leafKey).1 hchain, not_not.1 ‹_›⟩
    · rintro ⟨leafKey, x5c, ⟨rfl, hvals⟩, hne, hchain, hkey⟩
      exact ⟨x5c, ⟨hvals, hne⟩, leafKey, (parseAndVerifyCertChain_iff P ac x5c leafKey).2 hchain,
        by rw [if_neg (not_not.2 hkey)]⟩

/-- So is the key of a header. -/
theorem verifySigningKey_iff (h : Header) (key : Key) :
    verifySigningKey P ac h = some key ↔ Trusted P ac h key := by
  unfold verifySigningKey
  constructor
  · intro hkey
    split at hkey
    next hlen =>
      exact .chain h key (length_pos_iff.1 hlen)
        ((parseAndVerifyCertChain_iff P ac h.x5c key).1 hkey)
    next hlen =>
      have hx5c : h.x5c = [] := length_eq_zero_iff.1 (Nat.eq_zero_of_not_pos hlen)
      split at hkey
      next raw hraw =>
        rcases (parseAndVerifyRawJWK_iff P ac raw key).1 hkey with
          ⟨hjwk, htrusted⟩ | ⟨leafKey, x5c, hjwk, hne, hchain, hid⟩
        · exact .trustedJWK h key raw hx5c hraw hjwk htrusted
        · exact .chainedJWK h key leafKey raw x5c hx5c hraw hjwk hne hchain hid
      next hraw =>
        split at hkey
        next hid => exact .keyID h key hx5c hraw (length_pos_iff.1 hid) hkey
        next => cases hkey
  · intro htrusted
    cases htrusted with
    | chain hx5c hchain =>
      rw [if_pos (length_pos_iff.2 hx5c)]
      exact (parseAndVerifyCertChain_iff P ac h.x5c key).2 hchain
    | trustedJWK raw hx5c hraw hjwk hin =>
      rw [hx5c, hraw]
      exact (parseAndVerifyRawJWK_iff P ac raw key).2 (.inl ⟨hjwk, hin⟩)
    | chainedJWK leafKey raw x5c hx5c hraw hjwk hne hchain hid =>
      rw [hx5c, hraw]
      exact (parseAndVerifyRawJWK_iff P ac raw key).2 (.inr ⟨leafKey, x5c, hjwk, hne, hchain, hid⟩)
    | keyID hx5c hraw hid hin =>
      rw [hx5c, hraw, if_neg (by simp)]
      exact (if_pos (length_pos_iff.2 hid)).trans hin

/-! ## Times -/

/-- The last second for which `time.Unix` does not overflow. -/
def lastUnix : Int := 9223371974719179007

theorem unix_eq (t : Timestamp) :
    unix t = if t.val ≤ lastUnix then t.val + unixToInternal
      else t.val + unixToInternal - 18446744073709551616 := by
  have hlower := t.lower
  have hupper := t.upper
  simp only [unix, wrap64, unixToInternal, lastUnix]
  omega

/-- The expiry with its leeway. -/
theorem after_expiration_iff (now : Clock) (t : Token) :
    now.after (addSec (unix t.claims.expiration) leeway) = false ↔
      t.claims.expiration.val ≤ lastUnix ∧ Unexpired now t := by
  have hsec := now.sec_nonneg
  have hsec' := now.sec_lt
  have hnsec := now.nsec_nonneg
  have hnsec' := now.nsec_lt
  have hlower := t.claims.expiration.lower
  have hupper := t.claims.expiration.upper
  simp only [Clock.after, addSec, unix_eq, leeway, Unexpired, nanoseconds, unixToInternal, lastUnix,
    Bool.or_eq_false_iff, Bool.and_eq_false_iff, decide_eq_false_iff_not]
  omega

/-- The start with its leeway. -/
theorem before_notBefore_iff (now : Clock) (t : Token) :
    now.before (addSec (unix t.claims.notBefore) (-leeway)) = false ↔
      (t.claims.notBefore.val ≤ lastUnix → Started now t) := by
  have hsec := now.sec_nonneg
  have hsec' := now.sec_lt
  have hnsec := now.nsec_nonneg
  have hnsec' := now.nsec_lt
  have hlower := t.claims.notBefore.lower
  have hupper := t.claims.notBefore.upper
  simp only [Clock.before, addSec, unix_eq, leeway, Started, nanoseconds, unixToInternal, lastUnix,
    decide_eq_false_iff_not]
  omega

theorem not_started_of_late (now : Clock) (t : Token) (h : lastUnix < t.claims.notBefore.val) :
    ¬ Started now t := by
  have hsec' := now.sec_lt
  have hnsec' := now.nsec_lt
  simp only [Started, nanoseconds, leeway, lastUnix] at h ⊢
  omega

structure Passes (now : Clock) (t : Token) : Prop where
  signed : Signed P ac t
  expiration : t.claims.expiration.val ≤ lastUnix
  unexpired : Unexpired now t
  started : t.claims.notBefore.val ≤ lastUnix → Started now t

/-- **Which tokens are verified.** -/
theorem verify_eq_none_iff (now : Clock) (t : Token) :
    verify P ac now t = none ↔ Passes P ac now t := by
  have hexp := after_expiration_iff now t
  have hnbf := before_notBefore_iff now t
  constructor
  · intro h
    unfold verify at h
    split_ifs at h with hissuer haudience hafter hbefore hlen
    obtain ⟨hlast, hunexpired⟩ := hexp.1 (Bool.eq_false_iff.2 hafter)
    split at h
    · cases h
    next key hkey =>
      split_ifs at h with hverify
      exact ⟨⟨by simpa using hissuer, by simpa using haudience,
        fun hnil => hlen (by rw [hnil]; rfl),
        key, (verifySigningKey_iff P ac t.header key).1 hkey, hverify⟩, hlast, hunexpired,
        hnbf.1 (Bool.eq_false_iff.2 hbefore)⟩
  · rintro ⟨⟨hissuer, haudience, hsignature, key, hkey, hverify⟩, hlast, hunexpired, hstarted⟩
    unfold verify
    rw [if_neg (by simp [hissuer]), if_neg (by simp [haudience]), hexp.2 ⟨hlast, hunexpired⟩,
      hnbf.2 hstarted, if_neg Bool.false_ne_true, if_neg Bool.false_ne_true,
      if_neg (fun hlen => hsignature (length_eq_zero_iff.1 hlen)),
      (verifySigningKey_iff P ac t.header key).2 hkey]
    exact if_pos hverify

/-! ## Sets of accesses -/

def actionsOf (s : AccessSet) (r : Resource) : List Str :=
  ((s.find? fun p => p.1 = r).map Prod.snd).getD []

theorem contains_iff (s : AccessSet) (access : Access) :
    s.contains access = true ↔
      "*".toList ∈ actionsOf s access.resource ∨ access.action ∈ actionsOf s access.resource := by
  unfold AccessSet.contains actionsOf
  cases s.find? fun p => p.1 = access.resource with
  | none | some p => simp

/-- Actions are added to a resource. -/
theorem actionsOf_add (s : AccessSet) (r r' : Resource) (actions : List Str) :
    actionsOf (s.add r actions) r' =
      if r' = r then actionsOf s r' ++ actions else actionsOf s r' := by
  unfold AccessSet.add
  split
  next hany =>
    have hkey : (fun p : Resource × List Str => decide (p.1 = r')) ∘
        (fun p => if p.1 = r then (p.1, p.2 ++ actions) else p) = fun p => decide (p.1 = r') := by
      funext p
      simp only [Function.comp_apply]
      split <;> rfl
    simp only [actionsOf, List.find?_map, hkey]
    cases hfind : s.find? fun p => p.1 = r' with
    | none =>
      -- the resource is not in the set, so it is another one
      have hne : r' ≠ r := by
        rintro rfl
        obtain ⟨p, hp, hpr⟩ := any_eq_true.1 hany
        exact List.find?_eq_none.1 hfind p hp hpr
      simp [hne]
    | some q =>
      have hq : q.1 = r' := by simpa using List.find?_some hfind
      by_cases hr : r' = r <;> simp [hq, hr]
  next hany =>
    simp only [actionsOf, List.find?_append]
    by_cases hr : r' = r
    · have hnone : s.find? (fun p => decide (p.1 = r')) = none := by
        refine List.find?_eq_none.2 fun p hp hpr => hany ?_
        exact any_eq_true.2 ⟨p, hp, by rwa [← hr]⟩
      simp only [hnone]
      simp [hr]
    · simp [hr, Ne.symm hr]

def grantedSet (ras : List ResourceActions) : AccessSet :=
  ras.foldl (fun s ra => s.add ⟨ra.type, [], ra.name⟩ ra.actions) []

/-- The actions of a token. -/
theorem mem_actionsOf_grantedSet (ras : List ResourceActions) (r : Resource) (action : Str) :
    action ∈ actionsOf (grantedSet ras) r ↔
      r.cls = [] ∧ ∃ ra ∈ ras, ra.type = r.type ∧ ra.name = r.name ∧ action ∈ ra.actions := by
  have hfold : ∀ s : AccessSet, action ∈ actionsOf (ras.foldl
      (fun s ra => s.add ⟨ra.type, [], ra.name⟩ ra.actions) s) r ↔ action ∈ actionsOf s r ∨
      (r.cls = [] ∧ ∃ ra ∈ ras, ra.type = r.type ∧ ra.name = r.name ∧ action ∈ ra.actions) := by
    induction ras with
    | nil => simp
    | cons ra ras ih =>
      intro s
      have hr : r = ⟨ra.type, [], ra.name⟩ ↔ r.cls = [] ∧ ra.type = r.type ∧ ra.name = r.name := by
        cases r
        simp only [Resource.mk.injEq]
        constructor
        · rintro ⟨rfl, rfl, rfl⟩
          exact ⟨rfl, rfl, rfl⟩
        · rintro ⟨rfl, rfl, rfl⟩
          exact ⟨rfl, rfl, rfl⟩
      rw [foldl_cons, ih, actionsOf_add]
      simp only [mem_cons, exists_eq_or_imp]
      by_cases h : r = ⟨ra.type, [], ra.name⟩
      · obtain ⟨hcls, htype, hname⟩ := hr.1 h
        rw [if_pos h, mem_append]
        simp [hcls, htype, hname, or_assoc]
      rw [if_neg h]
      rw [hr] at h
      constructor
      · rintro (hs | ⟨hcls, hra⟩)
        · exact .inl hs
        · exact .inr ⟨hcls, .inr hra⟩
      · rintro (hs | ⟨hcls, ⟨htype, hname, -⟩ | hra⟩)
        · exact .inl hs
        · exact absurd ⟨hcls, htype, hname⟩ h
        · exact .inr ⟨hcls, hra⟩
  simpa [grantedSet, actionsOf] using hfold []

/-- **What a claim grants.** The set contains the accesses that an entry has, to resources without
a class. -/
theorem contains_accessSet_iff (ras : List ResourceActions) (access : Access) :
    (grantedSet ras).contains access = true ↔
      access.resource.cls = [] ∧ Grants (ras.map some) access := by
  rw [contains_iff, mem_actionsOf_grantedSet, mem_actionsOf_grantedSet, ← and_or_left]
  simp only [Grants, mem_map, Option.some.injEq, exists_eq_right]
  constructor
  · rintro ⟨hcls, ⟨ra, hra, htype, hname, h⟩ | ⟨ra, hra, htype, hname, h⟩⟩
    · exact ⟨hcls, ra, hra, htype, hname, .inl h⟩
    · exact ⟨hcls, ra, hra, htype, hname, .inr h⟩
  · rintro ⟨hcls, ra, hra, htype, hname, h | h⟩
    · exact ⟨hcls, .inl ⟨ra, hra, htype, hname, h⟩⟩
    · exact ⟨hcls, .inr ⟨ra, hra, htype, hname, h⟩⟩

/-! ## Entries that are null -/

theorem null_or_map_some {α : Type} (entries : List (Option α)) :
    none ∈ entries ∨ ∃ xs : List α, entries = xs.map some := by
  induction entries with
  | nil => exact .inr ⟨[], rfl⟩
  | cons entry entries ih =>
    cases entry with
    | none => exact .inl mem_cons_self
    | some x =>
      rcases ih with h | ⟨xs, rfl⟩
      · exact .inl (mem_cons_of_mem _ h)
      · exact .inr ⟨x :: xs, rfl⟩

theorem none_notMem_map_some {α : Type} (xs : List α) : none ∉ xs.map some := by simp

theorem accessSet_map_some (ras : List ResourceActions) :
    accessSet (ras.map some) = some (grantedSet ras) := by
  have hfold : ∀ s : AccessSet, (ras.map some).foldlM
      (fun s entry => entry.map fun ra => s.add ⟨ra.type, [], ra.name⟩ ra.actions) s =
      some (ras.foldl (fun s ra => s.add ⟨ra.type, [], ra.name⟩ ra.actions) s) := by
    induction ras with
    | nil => exact fun _ => rfl
    | cons ra ras ih => exact fun s => ih (s.add ⟨ra.type, [], ra.name⟩ ra.actions)
  exact hfold []

/-- A null entry panics. -/
theorem accessSet_null (entries : List (Option ResourceActions)) (h : none ∈ entries) :
    accessSet entries = none := by
  have hfold : ∀ s : AccessSet, entries.foldlM
      (fun s entry => entry.map fun ra => s.add ⟨ra.type, [], ra.name⟩ ra.actions) s = none := by
    induction entries with
    | nil => cases h
    | cons entry entries ih =>
      intro s
      cases entry with
      | none => rfl
      | some ra => exact ih (by simpa using h) (s.add ⟨ra.type, [], ra.name⟩ ra.actions)
  exact hfold []

theorem resources_map_some (ras : List ResourceActions) :
    ∃ rs, resources (ras.map some) = some rs := by
  have hmapM : (ras.map some).mapM id = some ras := by
    induction ras with
    | nil => rfl
    | cons ra ras ih => simp [ih]
  exact ⟨_, by rw [resources, hmapM, Option.map_some]⟩

theorem grant_null (claims : ClaimSet) (items : List Access) (h : none ∈ claims.access) :
    grant claims items = .panicked := by
  rw [grant, accessSet_null _ h]

/-- Without null entries nothing panics. -/
theorem grant_map_some (claims : ClaimSet) (items : List Access) (ras : List ResourceActions)
    (h : claims.access = ras.map some) :
    grant claims items ≠ .panicked ∧ (Succeeds (grant claims items) ↔
      ∀ access ∈ items, access.resource.cls = [] ∧ Grants claims.access access) := by
  obtain ⟨rs, hrs⟩ := resources_map_some ras
  have hall : items.all (grantedSet ras).contains = true ↔
      ∀ access ∈ items, access.resource.cls = [] ∧ Grants (ras.map some) access := by
    rw [all_eq_true]
    exact forall₂_congr fun access _ => contains_accessSet_iff ras access
  rw [grant, h, accessSet_map_some]
  simp only [hrs, ← hall]
  split
  next hin => exact ⟨by simp, iff_of_true ⟨_, _, rfl⟩ hin⟩
  next hin => exact ⟨by simp, iff_of_false (by rintro ⟨_, _, hgranted⟩; cases hgranted) hin⟩

/-! ## The decision -/

theorem authorized_of_carries (now : Clock) (authorization : Option Str) (items : List Access)
    (t : Token) (h : Carries P authorization t) :
    (Passes P ac now t → authorized P ac now authorization items = grant t.claims items) ∧
    (¬ Passes P ac now t → ∃ err scope,
      authorized P ac now authorization items = .challenge err scope) := by
  obtain ⟨header, rawToken, rfl, hbearer, htoken⟩ := h
  simp only [authorized, hbearer, htoken, ← verify_eq_none_iff]
  cases hverify : verify P ac now t with
  | none => exact ⟨fun _ => rfl, fun hnot => absurd rfl hnot⟩
  | some err => exact ⟨fun hsome => absurd hsome (Option.some_ne_none err), fun _ => ⟨_, _, rfl⟩⟩

/-- No token, no access. -/
theorem authorized_of_not_carries (now : Clock) (authorization : Option Str) (items : List Access)
    (h : ∀ t, ¬ Carries P authorization t) :
    authorized P ac now authorization items ≠ .panicked ∧
      ¬ Succeeds (authorized P ac now authorization items) := by
  unfold authorized
  split
  · exact ⟨by simp, by rintro ⟨_, _, hgranted⟩; cases hgranted⟩
  next header =>
    split
    · exact ⟨by simp, by rintro ⟨_, _, hgranted⟩; cases hgranted⟩
    next rawToken hbearer =>
      split
      · exact ⟨by simp, by rintro ⟨_, _, hgranted⟩; cases hgranted⟩
      next t htoken => exact absurd ⟨header, rawToken, rfl, hbearer, htoken⟩ (h t)

theorem carries_unique (authorization : Option Str) (t t' : Token)
    (h : Carries P authorization t) (h' : Carries P authorization t') : t = t' := by
  obtain ⟨header, rawToken, rfl, hbearer, htoken⟩ := h
  obtain ⟨header', rawToken', heq, hbearer', htoken'⟩ := h'
  cases heq
  rw [hbearer] at hbearer'
  cases hbearer'
  exact Option.some.inj (htoken.symm.trans htoken')

/-- No entry is null, and where all accesses are granted, no class is asked for and no time
overflows. -/
structure Regular (now : Clock) (items : List Access) (t : Token) : Prop where
  entries : Passes P ac now t → none ∉ t.claims.access
  classes : Verified P ac now t → (∀ access ∈ items, Grants t.claims.access access) →
    ∀ access ∈ items, access.resource.cls = []
  expiration : Verified P ac now t → (∀ access ∈ items, Grants t.claims.access access) →
    t.claims.expiration.val ≤ lastUnix
  notBefore : Passes P ac now t → (∀ access ∈ items, Grants t.claims.access access) →
    (∀ access ∈ items, access.resource.cls = []) → t.claims.notBefore.val ≤ lastUnix

theorem Verified.passes {P : Primitives Key Cert} {ac : AccessController Key Cert} {now : Clock}
    {t : Token} (h : Verified P ac now t) (hlast : t.claims.expiration.val ≤ lastUnix) :
    Passes P ac now t :=
  ⟨h.signed, hlast, h.unexpired, fun _ => h.started⟩

/-- INTERNAL: the outcome, by whether the token passes. -/
theorem outcome_exact_iff (now : Clock) (items : List Access) (t : Token) (o : Outcome)
    (h : (Passes P ac now t → o = grant t.claims items) ∧
      (¬ Passes P ac now t → ∃ err scope, o = .challenge err scope)) :
    ((Succeeds o ↔ Verified P ac now t ∧ ∀ access ∈ items, Grants t.claims.access access) ∧
      o ≠ .panicked) ↔ Regular P ac now items t := by
  by_cases hpasses : Passes P ac now t
  · rw [h.1 hpasses]
    rcases null_or_map_some t.claims.access with hnull | ⟨ras, hras⟩
    · rw [grant_null _ _ hnull]
      exact iff_of_false (fun hexact => hexact.2 rfl) fun hregular => hregular.entries hpasses hnull
    obtain ⟨hpanic, hsucceeds⟩ := grant_map_some t.claims items ras hras
    rw [hsucceeds]
    constructor
    · rintro ⟨hexact, -⟩
      refine ⟨fun _ => hras ▸ none_notMem_map_some ras, fun hverified hgrants access hin => ?_,
        fun _ _ => hpasses.expiration, fun _ hgrants hclasses => ?_⟩
      · exact (hexact.2 ⟨hverified, hgrants⟩ access hin).1
      · have hverified := (hexact.1 fun access hin => ⟨hclasses access hin, hgrants access hin⟩).1
        exact Int.not_lt.1 fun hlate => not_started_of_late now t hlate hverified.started
    · intro hregular
      refine ⟨⟨fun hboth => ?_, fun ⟨hverified, hgrants⟩ access hin => ?_⟩, hpanic⟩
      · have hgrants := fun access hin => (hboth access hin).2
        have hlast := hregular.notBefore hpasses hgrants fun access hin => (hboth access hin).1
        exact ⟨⟨hpasses.signed, hpasses.unexpired, hpasses.started hlast⟩, hgrants⟩
      · exact ⟨hregular.classes hverified hgrants access hin, hgrants access hin⟩
  · obtain ⟨err, scope, rfl⟩ := h.2 hpasses
    have hsucceeds : ¬ Succeeds (.challenge err scope) := by
      rintro ⟨_, _, hgranted⟩
      cases hgranted
    constructor
    · rintro ⟨hexact, -⟩
      have hnot : Verified P ac now t → ¬ ∀ access ∈ items, Grants t.claims.access access :=
        fun hverified hgrants => hsucceeds (hexact.2 ⟨hverified, hgrants⟩)
      exact ⟨fun hp => absurd hp hpasses, fun hv hg => absurd hg (hnot hv),
        fun hv hg => absurd hg (hnot hv), fun hp => absurd hp hpasses⟩
    · intro hregular
      refine ⟨iff_of_false hsucceeds fun ⟨hverified, hgrants⟩ => ?_, by simp⟩
      exact hpasses (hverified.passes (hregular.expiration hverified hgrants))

/-- **Authorization is exact for the requests whose token is regular**, and only for those: they
succeed if the token is verified and grants all that is asked for. -/
theorem authorized_exact_iff (now : Clock) (authorization : Option Str) (items : List Access) :
    ((Succeeds (authorized P ac now authorization items) ↔
        ∃ t, Carries P authorization t ∧ Verified P ac now t ∧
          ∀ access ∈ items, Grants t.claims.access access) ∧
      authorized P ac now authorization items ≠ .panicked) ↔
    ∀ t, Carries P authorization t → Regular P ac now items t := by
  by_cases hcarries : ∃ t, Carries P authorization t
  · obtain ⟨t, ht⟩ := hcarries
    have hunique : ∀ t', Carries P authorization t' → t' = t :=
      fun t' ht' => carries_unique P authorization t' t ht' ht
    have hany : (∃ t', Carries P authorization t' ∧ Verified P ac now t' ∧
          ∀ access ∈ items, Grants t'.claims.access access) ↔
        Verified P ac now t ∧ ∀ access ∈ items, Grants t.claims.access access :=
      ⟨fun ⟨t', ht', h⟩ => hunique t' ht' ▸ h, fun h => ⟨t, ht, h⟩⟩
    have hall : (∀ t', Carries P authorization t' → Regular P ac now items t') ↔
        Regular P ac now items t :=
      ⟨fun h => h t ht, fun h t' ht' => hunique t' ht' ▸ h⟩
    rw [hany, hall]
    exact outcome_exact_iff P ac now items t _
      (authorized_of_carries P ac now authorization items t ht)
  · have hnot : ∀ t, ¬ Carries P authorization t := fun t ht => hcarries ⟨t, ht⟩
    obtain ⟨hpanic, hsucceeds⟩ := authorized_of_not_carries P ac now authorization items hnot
    refine iff_of_true ⟨iff_of_false hsucceeds ?_, hpanic⟩ fun t ht => absurd ht (hnot t)
    rintro ⟨t, ht, -⟩
    exact hnot t ht

/-! ## A token with an entry that is null -/

/-- INTERNAL: libraries that decode and verify one token, signed with the one key there is, and
refuse everything else. -/
def signed (claims : ClaimSet) : Primitives Unit Unit where
  decodeURL part :=
    if part = "aaaa".toList then some [0]
    else if part = "bbbb".toList then some [1]
    else if part = "cccc".toList then some [2]
    else none
  decodeStd _ := none
  unmarshalHeader json :=
    if json = [0] then some ⟨"RS256".toList, "key".toList, [], none⟩ else none
  unmarshalClaims json := if json = [1] then some claims else none
  parseCertificate _ := none
  verifyCertificate _ _ _ := false
  publicKey _ := none
  unmarshalJWK _ := none
  keyID _ := "key".toList
  verify _ raw alg signature :=
    raw = "aaaa.bbbb".toList && alg = "RS256".toList && signature = [2]

def registryController : AccessController Unit Unit where
  issuer := "gitlab-issuer".toList
  service := "registry".toList
  rootCerts := []
  trustedKeys id := if id = "key".toList then some () else none

/-- INTERNAL: claims that hold from 1970 on and for an hour. -/
def nullClaims : ClaimSet where
  issuer := "gitlab-issuer".toList
  subject := "user".toList
  audience := "registry".toList
  expiration := ⟨3600, by decide, by decide⟩
  notBefore := ⟨0, by decide, by decide⟩
  access := [none]

/-- The token is verified and the request asks for nothing, yet the decision panics. -/
theorem null_entry_panics :
    authorized (signed nullClaims) registryController
      ⟨60, 0, by decide, by decide, by decide, by decide⟩
      (some "Bearer aaaa.bbbb.cccc".toList) [] = .panicked := by
  decide +kernel

end ContainerRegistry.Analysis.Tokens
