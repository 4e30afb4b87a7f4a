import ContainerRegistry.Model.Headers

/-!
# A challenge as the client reads it

What the server quotes the client unquotes, one parameter after the other. It stops at one with an
empty value: a challenge without a realm or a service is lost from there on.
-/

namespace ContainerRegistry.Analysis.Challenges

open Model.Headers List
open Model.Tokens (Str Error AccessSet)

variable {q : Char → Str} {t p r s : Str} {n : ℕ} {ac : AuthChallenge} {host : Str}

/-! ## Quoting -/

theorem quoteRune_cases {c : Char} (hc : printable c = true) :
    (c = '"' ∨ c = '\\') ∧ quoteRune q c = ['\\', c] ∨
      (c ≠ '"' ∧ c ≠ '\\') ∧ quoteRune q c = [c] := by
  by_cases h : c = '"' ∨ c = '\\'
  · exact .inl ⟨h, if_pos h⟩
  · exact .inr ⟨not_or.1 h, by rw [quoteRune, if_neg h, if_pos hc]⟩

section

variable (ht : ∀ c ∈ t, printable c = true)
include ht

/-- What is quoted is copied back. -/
theorem copyEscaped_quoted (hn : p.length + t.length ≤ n) :
    copyEscaped n false p (t.flatMap (quoteRune q) ++ '"' :: r) = some (p ++ t, r) := by
  induction t generalizing p with
  | nil => simp [copyEscaped]
  | cons c t ih =>
    rw [length_cons] at hn
    have hlt : p.length < n := by omega
    have ih := ih (p := p ++ [c]) (fun d hd => ht d (.tail _ hd)) (by simp; omega)
    rcases quoteRune_cases (q := q) (ht c (.head _)) with ⟨-, hq⟩ | ⟨hc, hq⟩
    · simpa [hq, copyEscaped, hlt] using ih
    · simpa [hq, copyEscaped, hlt, hc.1, hc.2] using ih

/-- A quoted string is read back. -/
theorem expectQuoted_quoted (hn : p.length + t.length < n) :
    expectQuoted n p (t.flatMap (quoteRune q) ++ '"' :: r) = some (p ++ t, r) := by
  induction t generalizing p with
  | nil => simp [expectQuoted]
  | cons c t ih =>
    rw [length_cons] at hn
    have ht' : ∀ d ∈ t, printable d = true := fun d hd => ht d (.tail _ hd)
    have hlength : (p ++ [c]).length = p.length + 1 := by simp
    rcases quoteRune_cases (q := q) (ht c (.head _)) with ⟨-, hq⟩ | ⟨hc, hq⟩
    · have hlt : p.length < n - 1 := by omega
      have hcopy := copyEscaped_quoted (q := q) (r := r) (p := p ++ [c]) (n := n - 1) ht' (by omega)
      simpa [hq, expectQuoted, copyEscaped, hlt] using hcopy
    · simpa [hq, expectQuoted, hc.1, hc.2] using ih (p := p ++ [c]) ht' (by omega)

/-- INTERNAL: **the two codecs agree.** -/
theorem expectTokenOrQuoted_quote : expectTokenOrQuoted (quote q t ++ r) = some (t, r) := by
  have hle : t.length ≤ (t.flatMap (quoteRune q)).length := by
    induction t with
    | nil => exact Nat.le_refl 0
    | cons c t ih =>
      have ih := ih fun d hd => ht d (.tail _ hd)
      simp only [flatMap_cons, length_append, length_cons]
      rcases quoteRune_cases (q := q) (ht c (.head _)) with ⟨-, hq⟩ | ⟨-, hq⟩ <;>
        simp only [hq, length_cons, length_nil] <;> omega
  have hquoted := expectQuoted_quoted (q := q) (p := []) (r := r)
    (n := (t.flatMap (quoteRune q) ++ '"' :: r).length) ht
    (by simp only [length_append, length_cons, length_nil]; omega)
  simpa [quote, expectTokenOrQuoted] using hquoted

end

/-! ## The parser ends -/

/-- The copy comes to its end. -/
theorem copyEscaped_ends (b : Bool) (hn : p.length + s.length ≤ n) :
    ∃ x, copyEscaped n b p s = some x ∧ x.2.length ≤ s.length := by
  induction s generalizing p b with
  | nil => exact ⟨_, rfl, Nat.le_refl 0⟩
  | cons c s ih =>
    rw [length_cons] at hn
    rw [copyEscaped]
    split
    · obtain ⟨x, hx, hle⟩ := ih (p := p) true (by omega)
      exact ⟨x, hx, Nat.le_succ_of_le hle⟩
    split
    · exact ⟨_, rfl, Nat.le_succ _⟩
    · obtain ⟨x, hx, hle⟩ := ih (p := p ++ [c]) false (by simp; omega)
      rw [if_pos (by omega)]
      exact ⟨x, hx, Nat.le_succ_of_le hle⟩

/-- So does a quoted string. -/
theorem expectQuoted_ends (hn : p.length + s.length = n) :
    ∃ x, expectQuoted n p s = some x ∧ x.2.length ≤ s.length := by
  induction s generalizing p with
  | nil => exact ⟨_, rfl, Nat.le_refl 0⟩
  | cons c s ih =>
    rw [length_cons] at hn
    rw [expectQuoted]
    split
    · exact ⟨_, rfl, Nat.le_succ _⟩
    split
    · obtain ⟨x, hx, hle⟩ := copyEscaped_ends (p := p) (s := s) (n := n - 1) true (by omega)
      exact ⟨x, hx, Nat.le_succ_of_le hle⟩
    · obtain ⟨x, hx, hle⟩ := ih (p := p ++ [c]) (by simp; omega)
      exact ⟨x, hx, Nat.le_succ_of_le hle⟩

theorem length_dropWhile_le (f : Char → Bool) (s : Str) : (s.dropWhile f).length ≤ s.length :=
  (dropWhile_suffix f).length_le

theorem expectTokenOrQuoted_ends (s : Str) :
    ∃ x, expectTokenOrQuoted s = some x ∧ x.2.length ≤ s.length := by
  unfold expectTokenOrQuoted
  split
  · obtain ⟨x, hx, hle⟩ := expectQuoted_ends (p := []) (s := s.tail) (Nat.zero_add _)
    rw [length_tail] at hle
    exact ⟨x, hx, by omega⟩
  · exact ⟨_, rfl, length_dropWhile_le _ s⟩

/-- And the list of parameters. -/
theorem parseParams_ends {m : Params} (hn : s.length < n) : (parseParams n m s).isSome = true := by
  induction n generalizing m s with
  | zero => omega
  | succ n ih =>
    rw [parseParams]
    split
    · rfl
    next hcomma =>
    dsimp only
    split
    · rfl
    obtain ⟨x, hx, hle⟩ := expectTokenOrQuoted_ends (expectToken (skipSpace s.tail)).2.tail
    rw [hx, Option.bind_some]
    split
    · rfl
    refine ih ?_
    have hskip := length_dropWhile_le isSpace x.2
    have htoken := length_dropWhile_le isToken (skipSpace s.tail)
    have hspace := length_dropWhile_le isSpace s.tail
    cases s with
    | nil => simp at hcomma
    | cons c s =>
      simp only [length_tail, tail_cons, length_cons, expectToken, skipSpace] at *
      omega

/-- INTERNAL: **the parser of the client neither panics nor loops.** -/
theorem parseValueAndParams_ends (s : Str) : (parseValueAndParams s).isSome = true := by
  unfold parseValueAndParams
  dsimp only
  split
  · rfl
  next hvalue =>
    rw [Option.isSome_map]
    refine parseParams_ends ?_
    have hskip := length_dropWhile_le isSpace (s.dropWhile isToken)
    have hsplit := congrArg List.length (takeWhile_append_dropWhile (p := isToken) (l := s))
    have hpos := length_pos_iff.2 hvalue
    simp only [length_append, expectToken, skipSpace, length_cons] at *
    omega

/-! ## Reading a challenge -/

theorem expectToken_append {k : Str} {c : Char} (hk : ∀ d ∈ k, isToken d = true)
    (hc : isToken c = false) : expectToken (k ++ c :: s) = (k, c :: s) := by
  rw [expectToken, takeWhile_append_of_pos hk, dropWhile_append_of_pos hk]
  simp [hc]

theorem isSpace_of_isToken {c : Char} (hc : isToken c = true) : isSpace c = false := by
  rw [← Bool.not_eq_true]
  intro hspace
  simp only [isSpace, contains_iff_mem] at hspace
  simp at hspace
  rcases hspace with rfl | rfl | rfl | rfl <;> revert hc <;> decide

/-- The parser reads the parameter to its end. -/
def Readable (kv : Str × Str) : Prop :=
  kv.1 ≠ [] ∧ (∀ c ∈ kv.1, isToken c = true) ∧ kv.2 ≠ [] ∧ ∀ c ∈ kv.2, printable c = true

theorem readable {w : String} (hw : w.toList ≠ [] ∧ w.toList.all isToken = true) (ht : t ≠ [])
    (ht' : ∀ c ∈ t, printable c = true) : Readable (w.toList, t) :=
  ⟨hw.1, all_eq_true.1 hw.2, ht, ht'⟩

def put (m : Params) (kv : Str × Str) : Params :=
  Function.update m (kv.1.map Char.toLower) (some kv.2)

/-- One more parameter is read. -/
theorem parseParams_param {m : Params} {kv} (hkv : Readable kv) :
    parseParams (n + 1) m (',' :: param q kv ++ r) = parseParams n (put m kv) (skipSpace r) := by
  obtain ⟨hk, hk', ht, ht'⟩ := hkv
  have hskip : skipSpace (kv.1 ++ '=' :: (quote q kv.2 ++ r)) =
      kv.1 ++ '=' :: (quote q kv.2 ++ r) := by
    obtain ⟨c, k, heq⟩ := exists_cons_of_ne_nil hk
    have hc := isSpace_of_isToken (hk' c (by simp [heq]))
    rw [heq]
    exact dropWhile_cons_of_neg (by simp [hc])
  rw [parseParams, param]
  simp [hskip, expectToken_append hk' (c := '=') (by decide), hk,
    expectTokenOrQuoted_quote ht', ht, put]

/-- INTERNAL: **the parser reads one parameter after the other.** -/
theorem parseParams_params {m : Params} {l : List (Str × Str)} (hl : ∀ kv ∈ l, Readable kv)
    (hn : (l.flatMap (',' :: param q ·)).length < n) :
    parseParams n m (l.flatMap (',' :: param q ·)) = some (l.foldl put m) := by
  induction l generalizing m n with
  | nil =>
    obtain ⟨n, rfl⟩ := Nat.exists_eq_add_one_of_ne_zero (Nat.ne_zero_of_lt hn)
    simp [parseParams]
  | cons kv l ih =>
    obtain ⟨n, rfl⟩ := Nat.exists_eq_add_one_of_ne_zero (Nat.ne_zero_of_lt hn)
    simp only [flatMap_cons, length_append, length_cons] at hn
    have hskip : skipSpace (l.flatMap (',' :: param q ·)) = l.flatMap (',' :: param q ·) := by
      cases l with
      | nil => rfl
      | cons kv l => exact dropWhile_cons_of_neg (by decide)
    rw [flatMap_cons, parseParams_param (hl kv (.head _)), hskip,
      ih (fun kv h => hl kv (.tail _ h)) (by omega), foldl_cons]

/-- The map has the last value of each name. -/
theorem foldl_put_iff (v : Str) (k t : Str) :
    ((("realm".toList, v) :: ac.params).foldl put (fun _ => none)) k = some t ↔
      (k, t) ∈ ("realm".toList, v) :: ac.params := by
  have hput : ∀ w ∈ ["realm", "service", "scope", "error"], ∀ m t,
      put m (w.toList, t) = Function.update m w.toList (some t) := by
    intro w hw m t
    have hlower : w.toList.map Char.toLower = w.toList := by
      revert w
      decide
    rw [put, hlower]
  simp only [mem_cons, not_mem_nil, or_false, forall_eq_or_imp, forall_eq] at hput
  obtain ⟨h₁, h₂, h₃, h₄⟩ := hput
  unfold AuthChallenge.params
  by_cases hscope : scopeParam ac.accessSet = [] <;> cases ac.err <;>
    simp only [hscope, ne_eq, not_true, not_false_eq_true, if_true, if_false, cons_append,
      nil_append, foldl_cons, foldl_nil, h₁, h₂, h₃, h₄, Function.update_apply,
      mem_cons, Prod.mk.injEq, not_mem_nil, or_false] <;>
    split_ifs <;> simp_all <;> grind

/-- Printable strings are joined. -/
theorem printable_intercalate {x : Char} {l : List Str} (hx : printable x = true)
    (hl : ∀ a ∈ l, ∀ c ∈ a, printable c = true) : ∀ c ∈ [x].intercalate l, printable c = true := by
  induction l with
  | nil => simp [List.intercalate]
  | cons a l ih =>
    have ih := ih fun b hb => hl b (.tail _ hb)
    have ha := hl a (.head _)
    cases l with
    | nil => simpa [List.intercalate] using ha
    | cons b l =>
      have hcons : [x].intercalate (a :: b :: l) = a ++ x :: [x].intercalate (b :: l) := by
        simp [List.intercalate]
      rw [hcons]
      grind

/-- The strings of a challenge are printable. -/
structure Printable (ac : AuthChallenge) (host : Str) : Prop where
  realm : ∀ c ∈ ac.realm, printable c = true
  host : ∀ c ∈ host, printable c = true
  service : ∀ c ∈ ac.service, printable c = true
  accessSet : ∀ e ∈ ac.accessSet, (∀ c ∈ e.1.type ++ e.1.name, printable c = true) ∧
    ∀ a ∈ e.2, ∀ c ∈ a, printable c = true

theorem readable_realm (h : Printable ac host) (hrealm : ac.autoRedirect = true ∨ ac.realm ≠ []) :
    Readable ("realm".toList, ac.realmFor host) := by
  unfold AuthChallenge.realmFor
  split
  · have hfixed := all_eq_true.1 (show ("https://".toList ++ "/auth/token".toList).all
      printable = true by decide)
    have hhost := h.host
    exact readable (by decide) (by simp) (by grind)
  next hredirect => exact readable (by decide) (hrealm.resolve_left hredirect) h.realm

/-- All parameters can be read. -/
theorem readable_params (h : Printable ac host) (hservice : ac.service ≠ []) :
    ∀ kv ∈ ac.params, Readable kv := by
  have hscope : ∀ c ∈ scopeParam ac.accessSet, printable c = true := by
    refine printable_intercalate (by decide) fun a ha => ?_
    obtain ⟨e, he, rfl⟩ := mem_map.1 ha
    obtain ⟨hresource, hactions⟩ := h.accessSet e he
    have hcolon : printable ':' = true := by decide
    have hjoined := printable_intercalate (x := ',') (by decide) hactions
    grind
  unfold AuthChallenge.params
  intro kv hkv
  rcases mem_append.1 hkv with hkv | hkv
  · rcases mem_cons.1 hkv with rfl | hkv
    · exact readable (by decide) hservice h.service
    · split at hkv
      next hne =>
        rw [mem_singleton.1 hkv]
        exact readable (by decide) hne hscope
      next => cases hkv
  · cases herr : ac.err <;> simp only [herr, mem_singleton, not_mem_nil] at hkv <;>
      rw [hkv] <;> exact readable (by decide) (by decide) (all_eq_true.1 (by decide))

/-- INTERNAL: the challenge is read with its parameters. -/
theorem parseValueAndParams_challenge (hprintable : Printable ac host)
    (hrealm : ac.autoRedirect = true ∨ ac.realm ≠ []) (hservice : ac.service ≠ []) :
    parseValueAndParams (ac.challengeParams q host) = some ("bearer".toList,
      (("realm".toList, ac.realmFor host) :: ac.params).foldl put fun _ => none) := by
  obtain ⟨t, ht⟩ : ∃ t, t = (("realm".toList, ac.realmFor host) :: ac.params).flatMap
    (',' :: param q ·) := ⟨_, rfl⟩
  have hchallenge : ac.challengeParams q host = "Bearer".toList ++ ' ' :: t.tail := by
    rw [ht]
    rfl
  have hsplit : expectToken (ac.challengeParams q host) = ("Bearer".toList, ' ' :: t.tail) := by
    rw [hchallenge]
    exact expectToken_append (all_eq_true.1 (by decide)) (by decide)
  have hskip : ',' :: skipSpace (' ' :: t.tail) = t := by
    rw [ht]
    rfl
  have hlt : t.length < (ac.challengeParams q host).length + 1 := by
    rw [hchallenge, length_append, length_cons, length_tail]
    omega
  rw [ht] at hlt
  have hparams := parseParams_params (m := fun _ => none) (forall_mem_cons.2
    ⟨readable_realm hprintable hrealm, readable_params hprintable hservice⟩) hlt
  unfold parseValueAndParams
  simp only [hsplit, hskip]
  rw [ht, if_neg (by decide), hparams]
  rfl

/-- INTERNAL: the loop stops at an empty value before it stores it. -/
theorem parseParams_ne_nil {m m' : Params} (h : parseParams n m s = some m')
    (hm : ∀ k, m k ≠ some []) (k : Str) : m' k ≠ some [] := by
  induction n generalizing m s with
  | zero => cases h
  | succ n ih =>
    rw [parseParams] at h
    split at h
    · cases h
      exact hm k
    dsimp only at h
    split at h
    · cases h
      exact hm k
    obtain ⟨x, -, h⟩ := Option.bind_eq_some_iff.1 h
    split at h
    · cases h
      exact hm k
    next hvalue =>
      refine ih h fun k' => ?_
      rw [Function.update_apply]
      split
      · simpa using hvalue
      · exact hm k'

theorem parseValueAndParams_ne_nil {value : Str} {m : Params}
    (h : parseValueAndParams s = some (value, m)) (k : Str) : m k ≠ some [] := by
  unfold parseValueAndParams at h
  dsimp only at h
  split at h
  · cases h
    exact nofun
  · obtain ⟨m', hparams, heq⟩ := Option.map_eq_some_iff.1 h
    cases heq
    exact parseParams_ne_nil hparams (fun _ => nofun) k

/-- **A challenge is read as it was written, exactly if neither its realm nor its service is
empty**; and the parser neither panics nor loops on any input. -/
theorem challenge_read (q : Char → Str) (hprintable : Printable ac host) :
    ((∃ m, parseValueAndParams (ac.challengeParams q host) = some ("bearer".toList, m) ∧
        ∀ k v, m k = some v ↔ (k, v) ∈ ("realm".toList, ac.realmFor host) :: ac.params) ↔
      (ac.autoRedirect = true ∨ ac.realm ≠ []) ∧ ac.service ≠ []) ∧
    ∀ s, (parseValueAndParams s).isSome = true := by
  refine ⟨⟨?_, fun ⟨hrealm, hservice⟩ => ?_⟩, parseValueAndParams_ends⟩
  · rintro ⟨m, hm, hiff⟩
    have hne := parseValueAndParams_ne_nil hm
    constructor
    · by_contra hempty
      obtain ⟨hredirect, hrealm⟩ := not_or.1 hempty
      refine hne "realm".toList ((hiff _ _).2 ?_)
      rw [AuthChallenge.realmFor, if_neg hredirect, not_not.1 hrealm]
      exact mem_cons_self
    · intro hservice
      refine hne "service".toList ((hiff _ _).2 ?_)
      rw [AuthChallenge.params, hservice]
      exact mem_cons_of_mem _ mem_cons_self
  · exact ⟨_, parseValueAndParams_challenge hprintable hrealm hservice, foldl_put_iff _⟩

/-- A realm with a quote in it. -/
theorem quoted_realm_read :
    ∃ m, parseValueAndParams (AuthChallenge.challengeParams (fun _ => [])
        ⟨.insufficientScope, "a\"b,".toList, false, "c\\".toList, []⟩ []) =
          some ("bearer".toList, m) ∧
      m "realm".toList = some "a\"b,".toList ∧
      m "error".toList = some "insufficient_scope".toList := by
  obtain ⟨hread, -⟩ := @challenge_read
    ⟨.insufficientScope, "a\"b,".toList, false, "c\\".toList, []⟩ [] (fun _ => [])
    ⟨all_eq_true.1 (by decide), nofun, all_eq_true.1 (by decide), nofun⟩
  obtain ⟨m, hm, hiff⟩ := hread.2 ⟨by decide, by decide⟩
  exact ⟨m, hm, (hiff _ _).2 (by decide), (hiff _ _).2 (by decide)⟩

/-- The realm is empty, and nothing is read. -/
theorem empty_realm_lost :
    (parseValueAndParams (AuthChallenge.challengeParams (fun _ => [])
      ⟨.tokenRequired, [], false, "registry".toList, []⟩ [])).map
        (fun r => (r.1, r.2 "realm".toList, r.2 "service".toList)) =
      some ("bearer".toList, none, none) := by
  decide +kernel

end ContainerRegistry.Analysis.Challenges
