import ContainerRegistry.Analysis.CatalogWalk

/-!
# Paging through the catalog

The walk is in the order of paths, so it finds a repository at its `_layers`, behind the components
that start with a digit. Where this order agrees with that of `lessPath` (`Ordered`), a page is full
before the end of the catalog exactly when more repositories are left, or a directory without layers
lies behind all of them (`finished_iff`).
-/

namespace ContainerRegistry.Analysis.Catalogs

open Library Model.Catalogs List

variable {S : Stored} {n : ℕ} {last : List Char} {q r : Path}

/-- No repository lies below another with a next component before `_layers`. -/
def Ordered (names : List Name) : Prop :=
  ∀ r ∈ names, ∀ r' ∈ names, ∀ c rest, r'.components = r.components ++ c :: rest → ¬ c < layers

/-- A directory without layers that the walk comes to behind all repositories. -/
def Behind (S : Stored) : Prop :=
  ∃ d ∈ S.begun, ∀ r ∈ S.names, r.components ++ [layers] < d.components

/-! ## Where the orders agree -/

theorem valid_of_listed (h : r ∈ listed S last) : ∀ c ∈ r, validComponent c = true := by
  obtain ⟨⟨name, -, rfl⟩, -⟩ := mem_listed.1 h
  exact name.valid

/-- INTERNAL: where `lessPath` is transitive. -/
theorem lessPath_trans (hq : ∀ c ∈ q, validComponent c = true)
    (hr : ∀ c ∈ r, validComponent c = true) (h : lessPath last (joinPath q) = true) (hqr : q < r) :
    lessPath last (joinPath r) = true := by
  have hlt := (lessPath_joinPath hq hr).2 hqr
  rw [lessPath_iff] at h hlt ⊢
  exact h.trans hlt

/-- **The layers of a repository come before the repositories after it.** -/
theorem layers_lt (ho : Ordered S.names) {q r : Name} (hq : q ∈ S.names) (hr : r ∈ S.names)
    (h : q.components < r.components) : q.components ++ [layers] < r.components := by
  by_cases hpre : q.components <+: r.components
  · obtain ⟨rest, hrest⟩ := hpre
    cases rest with
    | nil =>
      rw [append_nil] at hrest
      exact absurd (hrest ▸ h) (lt_irrefl _)
    | cons c rest =>
      have hne : layers ≠ c := by
        rintro rfl
        have hvalid := r.valid layers (hrest ▸ mem_append_right _ mem_cons_self)
        rw [special_not_valid.1] at hvalid
        cases hvalid
      rw [← hrest, append_lt_append_iff, cons_lt_cons_iff]
      exact .inl (lt_of_le_of_ne (not_lt.1 (ho q hq r hr c rest hrest.symm)) hne)
  · exact append_lt_of_not_prefix h hpre

/-- INTERNAL: for two repositories of the listing. -/
theorem layers_lt_iff (ho : Ordered S.names) (hq : q ∈ listed S last) (hr : r ∈ listed S last) :
    q ++ [layers] < r ↔ q < r := by
  obtain ⟨⟨q, hqmem, rfl⟩, -⟩ := mem_listed.1 hq
  obtain ⟨⟨r, hrmem, rfl⟩, -⟩ := mem_listed.1 hr
  exact ⟨lt_append_cons.trans, layers_lt ho hqmem hrmem⟩

/-- **The listing is in the order of `lessPath`.** -/
theorem listed_sorted (ho : Ordered S.names) : SortedBy id (listed S last) := by
  refine List.Pairwise.imp_of_mem ?_ sorted_listed
  intro q r hq hr hlt
  rcases lt_trichotomy q r with h | rfl | h
  · exact h
  · exact absurd hlt (lt_irrefl _)
  · exact absurd (((layers_lt_iff ho hr hq).2 h).trans lt_append_cons) (lt_asymm hlt)

/-- INTERNAL: the repositories of the listing before its `n`-th. -/
theorem filter_before {l : List Path} (hl : SortedBy id l) (hn : n < l.length) :
    l.filter (fun q => q < l[n]) = l.take n := by
  have hsplit : l.take n ++ l[n] :: l.drop (n + 1) = l := by simp
  rw [← hsplit] at hl
  obtain ⟨-, hbehind, hbefore⟩ := pairwise_append.1 hl
  have hfirst : (l.take n).filter (fun q => q < l[n]) = l.take n :=
    filter_eq_self.2 fun q hq => by simpa using hbefore q hq _ mem_cons_self
  have hsecond : (l[n] :: l.drop (n + 1)).filter (fun q => q < l[n]) = [] := by
    refine filter_eq_nil_iff.2 fun q hq => ?_
    rcases mem_cons.1 hq with rfl | hq
    · simp
    · simpa using ((pairwise_cons.1 hbehind).1 q hq).le
  calc l.filter (fun q => q < l[n])
      = (l.take n ++ l[n] :: l.drop (n + 1)).filter (fun q => q < l[n]) := by rw [hsplit]
    _ = l.take n := by rw [filter_append, hfirst, hsecond, append_nil]

/-- INTERNAL: a directory behind the listing is behind all repositories. -/
theorem behind_of_listed (ho : Ordered S.names) (hne : listed S last ≠ []) {d} (hd : IsDir S d)
    (h : ∀ r ∈ listed S last, r ++ [layers] < d) : Behind S := by
  obtain ⟨q, hq⟩ := exists_mem_of_ne_nil _ hne
  obtain ⟨⟨name, hname, rfl⟩, hless⟩ := mem_listed.1 hq
  have hall : ∀ r ∈ S.names, r.components ++ [layers] < d := by
    intro r hr
    by_cases hmem : r.components ∈ listed S last
    · exact h _ hmem
    -- what is not after `last` comes before what is
    have hlt : r.components < name.components := by
      rcases lt_trichotomy r.components name.components with hlt | heq | hgt
      · exact hlt
      · exact absurd (heq ▸ hq) hmem
      · exact absurd (mem_listed.2 ⟨⟨r, hr, rfl⟩, lessPath_trans name.valid r.valid hless hgt⟩) hmem
    exact ((layers_lt ho hr hname hlt).trans lt_append_cons).trans (h _ hq)
  obtain ⟨-, x, hx, hpre⟩ := hd
  have hle : d ≤ x.components := not_lt.1 (not_lt_of_starts hpre)
  rcases mem_append.1 hx with hx | hx
  · exact absurd (lt_append_cons.trans (hall x hx)) (not_lt.2 hle)
  · exact ⟨x, hx, fun r hr => (hall r hr).trans_le hle⟩

/-- **A page is full without the end of the catalog** exactly when more repositories are left, or
none and a directory lies behind them. -/
theorem finished_iff (ho : Ordered S.names) (hn : n ≠ 0) : Finished S n last ↔
    n < (listed S last).length ∨ (listed S last).length = n ∧ Behind S := by
  constructor
  · rintro ⟨d, hd, hlen⟩
    have hle := length_filter_le (fun r => decide (r ++ [layers] < d)) (listed S last)
    rw [hlen] at hle
    rcases hle.lt_or_eq with hlt | heq
    · exact .inl hlt
    have hall := length_filter_eq_length_iff.1 (hlen.trans heq)
    refine .inr ⟨heq.symm, behind_of_listed ho (fun hnil : listed S last = [] => hn ?_) hd
      fun r hr => ?_⟩
    · rw [heq, hnil, length_nil]
    · simpa using hall r hr
  · rintro (hlt | ⟨heq, d, hd, hall⟩)
    · have hmem := getElem_mem hlt
      have hdir : IsDir S (listed S last)[n] := by
        obtain ⟨⟨name, hname, hr⟩, -⟩ := mem_listed.1 hmem
        exact ⟨hr ▸ name.nonempty, name, mem_append_left _ hname, hr ▸ prefix_rfl⟩
      refine ⟨_, hdir, ?_⟩
      have hfilter := filter_before (listed_sorted ho) hlt
      rw [filter_congr fun q hq => decide_eq_decide.2 (layers_lt_iff ho hq hmem), hfilter,
        length_take, Nat.min_eq_left hlt.le]
    · refine ⟨d.components, ⟨d.nonempty, d, mem_append_right _ hd, prefix_rfl⟩, ?_⟩
      rw [← heq, length_filter_eq_length_iff]
      intro r hr
      obtain ⟨⟨name, hname, rfl⟩, -⟩ := mem_listed.1 hr
      exact decide_eq_true (hall name hname)

/-! ## Paging -/

/-- The pages from `last` on: each call takes the final entry of the page before, until the end is
told. -/
inductive Pages (T : ObjectTree Component Unit) (n : ℕ) : List Char → List (List Path) → Prop where
  | last {last : List Char} {page : List Path}
      (h : repositories T n last = some (page, some .eof)) : Pages T n last [page]
  | more {last : List Char} {page : List Path} {final : Path} {pages : List (List Path)}
      (h : repositories T n last = some (page, none)) (hfinal : page.getLast? = some final)
      (hrest : Pages T n (joinPath final) pages) : Pages T n last (page :: pages)

/-- INTERNAL: the calls are determined. -/
theorem Pages.unique {T : ObjectTree Component Unit} {pages pages' : List (List Path)}
    (h : Pages T n last pages) (h' : Pages T n last pages') : pages = pages' := by
  induction h generalizing pages' with
  | last h =>
    cases h' with
    | last h' =>
      cases h.symm.trans h'
      rfl
    | more h' => cases h.symm.trans h'
  | more h hfinal _ ih =>
    cases h' with
    | last h' => cases h.symm.trans h'
    | more h' hfinal' hrest' =>
      cases h.symm.trans h'
      cases hfinal.symm.trans hfinal'
      rw [ih hrest']

/-- Something comes behind every page but the last. -/
def Closed (pages : List (List Path)) : Prop :=
  ∀ first rest, pages = first ++ rest → first ≠ [] → rest ≠ [] → rest.flatten ≠ []

theorem closed_singleton (page : List Path) : Closed [page] := by
  intro first rest heq hfirst hrest
  rcases singleton_eq_append_iff.1 heq with ⟨rfl, -⟩ | ⟨-, rfl⟩
  · exact absurd rfl hfirst
  · exact absurd rfl hrest

/-- The last of several pages is reported. -/
theorem closed_cons {page : List Path} {pages : List (List Path)} (hpages : pages ≠ []) :
    Closed (page :: pages) ↔ pages.flatten ≠ [] ∧ Closed pages := by
  constructor
  · intro h
    refine ⟨h [page] pages rfl (cons_ne_nil _ _) hpages, fun first rest heq hfirst => ?_⟩
    exact h (page :: first) rest (by rw [heq]; rfl) (cons_ne_nil _ _)
  · rintro ⟨hflat, h⟩ first rest heq hfirst hrest
    obtain ⟨p, first, rfl⟩ := exists_cons_of_ne_nil hfirst
    rw [cons_append, List.cons.injEq] at heq
    cases first with
    | nil =>
      rw [← show pages = rest from heq.2]
      exact hflat
    | cons p' first => exact h _ _ heq.2 (cons_ne_nil _ _) hrest

theorem Pages.ne_nil {T : ObjectTree Component Unit} {pages : List (List Path)}
    (h : Pages T n last pages) : pages ≠ [] := by
  cases h <;> exact cons_ne_nil _ _

/-- The pages have every repository once, in the order of `lessPath`, and the end is told exactly
with the page after which nothing remains. -/
def Complete (S : Stored) (n : ℕ) : Prop :=
  ∃ pages, Pages S.tree n [] pages ∧
    pages.flatten.Pairwise (fun p q => lessPath (joinPath p) (joinPath q) = true) ∧
    (∀ p, p ∈ pages.flatten ↔ ∃ r ∈ S.names, p = r.components) ∧ Closed pages

/-- INTERNAL: the next page goes on behind this one. -/
theorem listed_final (ho : Ordered S.names) {final}
    (hfinal : ((listed S last).take n).getLast? = some final) :
    listed S (joinPath final) = (listed S last).drop n := by
  have hmem : final ∈ listed S last := mem_of_mem_take (List.mem_of_getLast? hfinal)
  have hsorted : SortedBy id (listed S last) := listed_sorted ho
  have hsplit : SortedBy id ((listed S last).take n ++ (listed S last).drop n) := by
    rwa [take_append_drop]
  have hafter := hsplit.filter_after hfinal
  rw [take_append_drop] at hafter
  rw [← hafter]
  refine SortedBy.eq_of_mem_iff (listed_sorted ho) (hsorted.filter _) fun r => ?_
  rw [mem_filter, mem_listed, mem_listed, and_assoc]
  refine and_congr_right fun ⟨name, _, hr⟩ => ?_
  have hr : ∀ c ∈ r, validComponent c = true := hr ▸ name.valid
  rw [lessPath_joinPath (valid_of_listed hmem) hr]
  simp only [id_eq, decide_eq_true_eq]
  exact ⟨fun hlt => ⟨lessPath_trans (valid_of_listed hmem) hr (mem_listed.1 hmem).2 hlt, hlt⟩,
    And.right⟩

/-- **The pages where the orders agree.** Something comes behind every page but the last, unless the
last page is full and a directory lies behind all repositories. -/
theorem pages_exist (ho : Ordered S.names) (hn : n ≠ 0) (hroot : RootExists S) (last : List Char) :
    ∃ pages, Pages S.tree n last pages ∧ pages.flatten = listed S last ∧
      (Closed pages ↔ (Behind S → listed S last ≠ [] → ¬ n ∣ (listed S last).length)) := by
  induction hlen : (listed S last).length using Nat.strong_induction_on generalizing last with
  | h k ih =>
    subst hlen
    obtain ⟨err, hpage, herr⟩ := repositories_spec last hn hroot
    rw [finished_iff ho hn] at herr
    rcases herr with ⟨rfl, hmore⟩ | ⟨rfl, hend⟩
    · have hlen : n ≤ (listed S last).length := hmore.elim le_of_lt fun h => h.1.ge
      have hne : (listed S last).take n ≠ [] := by
        rw [Ne, take_eq_nil_iff, ← length_eq_zero_iff]
        omega
      have hleft := listed_final ho (List.getLast?_eq_some_getLast hne)
      have hdrop : ((listed S last).drop n).length = (listed S last).length - n := length_drop
      obtain ⟨pages, hpages, hflat, hclosed⟩ := ih _ (by rw [hleft, hdrop]; omega) (joinPath _) rfl
      rw [hleft] at hflat hclosed
      refine ⟨_ :: pages, .more hpage (List.getLast?_eq_some_getLast hne) hpages, ?_, ?_⟩
      · rw [flatten_cons, hflat, take_append_drop]
      rw [closed_cons hpages.ne_nil, hclosed, hflat, hdrop, Nat.dvd_sub_self_right]
      have hnonempty : listed S last ≠ [] := fun hnil => hne (by rw [hnil, take_nil])
      rcases hmore with hlt | ⟨heq, hbehind⟩
      · have hrest : (listed S last).drop n ≠ [] := by
          rw [Ne, drop_eq_nil_iff]
          omega
        simp [hrest, hnonempty, hlt.not_ge]
      · have hrest : (listed S last).drop n = [] := drop_eq_nil_iff.2 heq.le
        simp [hrest, hbehind, hnonempty, heq]
    · refine ⟨[_], .last hpage, ?_, ?_⟩
      · rw [flatten_singleton, take_of_length_le (not_lt.1 fun hlt => hend (.inl hlt))]
      refine iff_of_true (closed_singleton _) fun hbehind hne hdvd => ?_
      have hpos := length_pos_of_ne_nil hne
      have hle := Nat.le_of_dvd hpos hdvd
      exact hend (hle.lt_or_eq.imp id fun heq => ⟨heq.symm, hbehind⟩)

/-- INTERNAL: from the beginning, all repositories are listed. -/
theorem mem_listed_nil : r ∈ listed S [] ↔ ∃ name ∈ S.names, r = name.components := by
  rw [mem_listed, and_iff_left_iff_imp]
  rintro ⟨name, -, rfl⟩
  have hnil : joinPath [] = [] := rfl
  rw [← hnil, lessPath_joinPath (fun c hc => (by cases hc)) name.valid]
  obtain ⟨c, rest, hrest⟩ := exists_cons_of_ne_nil name.nonempty
  rw [hrest]
  exact nil_lt_cons _ _

theorem length_listed_nil : (listed S []).length = S.names.dedup.length := by
  have hinj : Function.Injective Name.components := by
    rintro ⟨p, _, _⟩ ⟨q, _, _⟩ rfl
    rfl
  rw [← length_map Name.components]
  refine ((perm_ext_iff_of_nodup sorted_listed.nodup ((nodup_dedup _).map hinj)).2
    fun r => ?_).length_eq
  rw [mem_listed_nil, mem_map]
  simp only [mem_dedup, eq_comm]

/-- Every page is one of the listing. -/
theorem page_of_mem (hn : n ≠ 0) (hroot : RootExists S) {pages} (h : Pages S.tree n last pages)
    {page} (hpage : page ∈ pages) : ∃ l, page = (listed S l).take n := by
  induction h with
  | last h =>
    obtain ⟨err, hspec, -⟩ := repositories_spec _ hn hroot
    cases h.symm.trans hspec
    exact ⟨_, mem_singleton.1 hpage⟩
  | more h _ _ ih =>
    obtain ⟨err, hspec, -⟩ := repositories_spec _ hn hroot
    cases h.symm.trans hspec
    rcases mem_cons.1 hpage with rfl | hpage
    · exact ⟨_, rfl⟩
    · exact ih hpage

/-- INTERNAL: pages in order have no repository below another with a component before
`_layers`. -/
theorem ordered_of_complete (hn : n ≠ 0) (hroot : RootExists S) (h : Complete S n) :
    Ordered S.names := by
  obtain ⟨pages, hpages, hsorted, hmem, -⟩ := h
  intro r hr r' hr' c rest hrest hlt
  have hless : r.components < r'.components := hrest ▸ lt_append_cons
  have hkeys : r'.components ++ [layers] < r.components ++ [layers] := by
    rw [hrest, append_assoc, append_lt_append_iff]
    exact cons_lt_cons_iff.2 (.inl hlt)
  obtain ⟨page, hpage, hrpage⟩ := mem_flatten.1 ((hmem r.components).2 ⟨r, hr, rfl⟩)
  obtain ⟨l, rfl⟩ := page_of_mem hn hroot hpages hpage
  have hafter := (mem_listed.1 (mem_of_mem_take hrpage)).2
  have hlisted : SortedBy (· ++ [layers]) ((listed S l).take n ++ (listed S l).drop n) := by
    rw [take_append_drop]
    exact sorted_listed
  obtain ⟨hpageSorted, -, hbetween⟩ := pairwise_append.1 hlisted
  -- the one below comes first, so it is on the same page
  have hr'page : r'.components ∈ (listed S l).take n := by
    have hr'mem : r'.components ∈ listed S l :=
      mem_listed.2 ⟨⟨r', hr', rfl⟩, lessPath_trans r.valid r'.valid hafter hless⟩
    rw [← take_append_drop n (listed S l), mem_append] at hr'mem
    exact hr'mem.resolve_right fun hdrop => lt_asymm hkeys (hbetween _ hrpage _ hdrop)
  -- on a page `lessPath` is the order of the walk, and the two disagree here
  have hagree := ((pairwise_flatten.1 hsorted).1 _ hpage).and hpageSorted
  have hall := Pairwise.forall_of_forall_of_flip
    (R := fun p q => lessPath (joinPath p) (joinPath q) = true → p ++ [layers] < q ++ [layers])
    (fun p _ hp => absurd (lessPath_iff.1 hp) (lt_irrefl _)) (hagree.imp fun h _ => h.2)
    (hagree.imp fun h hflip => absurd (lessPath_iff.1 h.1) (lt_asymm (lessPath_iff.1 hflip)))
  exact lt_asymm hkeys
    (hall hrpage hr'page ((lessPath_joinPath r.valid r'.valid).2 hless))

/-- **Paging is complete exactly when** there is a repositories root, no repository lies below
another with a next component before `_layers`, and the last page is not full where a directory
without layers lies behind all repositories. -/
theorem catalog_complete_iff (hn : 1 ≤ n) : Complete S n ↔ RootExists S ∧ Ordered S.names ∧
    (Behind S → S.names ≠ [] → ¬ n ∣ S.names.dedup.length) := by
  have hn : n ≠ 0 := by omega
  have hne : listed S [] ≠ [] ↔ S.names ≠ [] := by
    rw [ne_eq, ne_eq, ← length_eq_zero_iff, length_listed_nil, length_eq_zero_iff,
      dedup_eq_nil]
  constructor
  · intro h
    have hroot : RootExists S := by
      by_contra hcon
      obtain ⟨pages, hpages, -⟩ := h
      have hpage := repositories_no_root [] hn hcon
      cases hpages with
      | last h | more h =>
        rw [hpage] at h
        cases h
    have ho := ordered_of_complete hn hroot h
    obtain ⟨pages, hpages, -, -, hclosed⟩ := h
    obtain ⟨pages', hpages', -, hiff⟩ := pages_exist ho hn hroot []
    rw [← hpages.unique hpages', length_listed_nil, hne] at hiff
    exact ⟨hroot, ho, hiff.1 hclosed⟩
  · rintro ⟨hroot, ho, hbehind⟩
    obtain ⟨pages, hpages, hflat, hiff⟩ := pages_exist ho hn hroot []
    rw [length_listed_nil, hne] at hiff
    refine ⟨pages, hpages, ?_, fun p => ?_, hiff.2 hbehind⟩
    · rw [hflat]
      refine List.Pairwise.imp_of_mem ?_ (listed_sorted ho)
      intro p q hp hq hlt
      exact (lessPath_joinPath (valid_of_listed hp) (valid_of_listed hq)).2 hlt
    · rw [hflat, mem_listed_nil]

def foo : Name := ⟨["foo".toList], by decide, by decide⟩

def fooBar : Name := ⟨["foo".toList, "bar".toList], by decide, by decide⟩

def foo1a : Name := ⟨["foo".toList, "1a".toList], by decide, by decide⟩

def goo : Name := ⟨["goo".toList], by decide, by decide⟩

/-- With `foo` and `foo/bar`, and an upload begun below `goo`, the paging with three a page is
complete. -/
theorem catalog_complete_foo : Complete ⟨[fooBar, foo], [goo], false⟩ 3 := by
  refine (catalog_complete_iff (by decide)).2 ⟨.inr (by simp), ?_, fun _ _ => by decide⟩
  have hbar : ¬ "bar".toList < layers := by decide
  intro r hr r' hr' c rest hrest
  simp only [mem_cons, not_mem_nil, or_false] at hr hr'
  rcases hr with rfl | rfl <;> rcases hr' with rfl | rfl <;> simp [foo, fooBar] at hrest
  rw [← hrest.1]
  exact hbar

/-- With `foo` and `foo/1a` the first page of one entry has `foo/1a` and tells the end of the
catalog. With `foo` and an upload begun below `goo`, the page of `foo` does not tell it. -/
theorem foo_lost :
    (repositories (Stored.tree ⟨[foo, foo1a], [], false⟩) 1 [] =
        some ([foo1a.components], some .eof) ∧ ¬ Complete ⟨[foo, foo1a], [], false⟩ 1) ∧
      repositories (Stored.tree ⟨[foo], [goo], false⟩) 1 [] = some ([foo.components], none) ∧
      ¬ Complete ⟨[foo], [goo], false⟩ 1 := by
  refine ⟨⟨by decide +kernel, fun h => ?_⟩, by decide +kernel, fun h => ?_⟩
  · exact ordered_of_complete Nat.one_ne_zero (.inr (by simp)) h foo (by simp) foo1a (by simp)
      "1a".toList [] rfl (by decide)
  · obtain ⟨pages, hpages, -, -, hclosed⟩ := h
    have hpages' : Pages (Stored.tree ⟨[foo], [goo], false⟩) 1 [] [[foo.components], []] :=
      .more (by decide +kernel) rfl (.last (by decide +kernel))
    rw [hpages.unique hpages'] at hclosed
    exact hclosed [[foo.components]] [[]] rfl (cons_ne_nil _ _) (cons_ne_nil _ _) rfl

end ContainerRegistry.Analysis.Catalogs
