import ContainerRegistry.Library.SortedListing
import ContainerRegistry.Model.Listings

/-!
# Pages of a listing from the database

A page is the first entries after a marker, and its link has the last entry for a marker, escaped in
a query. The pages make up the listing (`Lists.complete`), by induction on the entries left.
-/

namespace ContainerRegistry.Analysis.Listings

open Library (SortedBy)
open Library.Query Model.Listings List

variable {κ : Type} [LinearOrder κ] (c : Collation κ)

/-! ## What is to be served -/

def after (all : List Text) (last : Text) : List Text := all.filter fun x => c.key last < c.key x

inductive Follows (serve : URL → Option Page) : URL → List (List Text) → Prop
  | last (u : URL) (p : Page) : serve u = some p → p.link = none → Follows serve u [p.entries]
  | more (u next : URL) (p : Page) (rest : List (List Text)) : serve u = some p →
      p.link = some next → Follows serve next rest → Follows serve u (p.entries :: rest)

def firstRequest (path : Text) (n : ℕ) : URL := ⟨path, encode [(ascii "n", itoa n)]⟩

/-- The size of the pages for a number; a number beyond 64 bits is not read. -/
def pageSize (n : ℕ) : ℕ := if n ≤ 9223372036854775807 then n else maximumReturnedEntries

/-- **The pages have every entry once, in increasing order**, and a page has a link exactly if
entries remain. -/
structure Complete (serve : URL → Option Page) (path : Text) (n : ℕ) (entry : Text → Prop) :
    Prop where
  pages : ∃ pages, Follows serve (firstRequest path n) pages ∧
    pages.flatten.Pairwise (fun x y => c.key x < c.key y) ∧ (∀ x, x ∈ pages.flatten ↔ entry x) ∧
    ∀ page ∈ pages, page.length ≤ pageSize n
  link : ∀ u p, serve u = some p → (p.link.isSome = true ↔
    ∃ x, entry x ∧ c.key (get (parse u.rawQuery) (ascii "last")) < c.key x ∧ x ∉ p.entries)

/-! ## Queries -/

section Queries

variable {β : Type} (column : β → Text) (rows : List β) (p : β → Bool)

theorem orderBy_perm : (orderBy c column rows).Perm rows := perm_insertionSort _ _

theorem orderBy_pairwise :
    ((orderBy c column rows).map column).Pairwise fun x y => c.key x ≤ c.key y := by
  rw [pairwise_map]
  exact pairwise_insertionSort _ _

theorem eq_of_perm_of_pairwise {l₁ l₂ : List Text} (hperm : l₁.Perm l₂)
    (h₁ : l₁.Pairwise fun x y => c.key x ≤ c.key y)
    (h₂ : l₂.Pairwise fun x y => c.key x ≤ c.key y) : l₁ = l₂ :=
  hperm.eq_of_pairwise (fun _ _ _ _ h h' => c.key_injective (le_antisymm h h')) h₁ h₂

/-- **A marker in a query** leaves what comes after it. -/
theorem orderBy_filter_map (last : Text) :
    (orderBy c column (rows.filter fun x => p x ∧ c.key last < c.key (column x))).map column =
      after c ((orderBy c column (rows.filter p)).map column) last := by
  refine eq_of_perm_of_pairwise c ?_ (orderBy_pairwise c column _)
    ((orderBy_pairwise c column _).sublist filter_sublist)
  calc (orderBy c column (rows.filter fun x => p x ∧ c.key last < c.key (column x))).map column
      |>.Perm ((rows.filter fun x => p x ∧ c.key last < c.key (column x)).map column) :=
        (orderBy_perm c column _).map column
    _ |>.Perm (((rows.filter p).map column).filter fun x => c.key last < c.key x) := by
        rw [filter_map, filter_filter]
        refine List.Perm.of_eq (congrArg _ (filter_congr fun x _ => ?_))
        simp [Bool.and_comm, Function.comp]
    _ |>.Perm (after c ((orderBy c column (rows.filter p)).map column) last) :=
        (((orderBy_perm c column _).map column).filter _).symm

theorem length_filter_after (last : Text) :
    (rows.filter fun x => p x ∧ c.key last < c.key (column x)).length =
      (after c ((orderBy c column (rows.filter p)).map column) last).length := by
  rw [← orderBy_filter_map, length_map, (orderBy_perm c column _).length_eq]

theorem sortedBy_orderBy (h : (rows.map column).Nodup) :
    SortedBy c.key ((orderBy c column rows).map column) := by
  have hnodup : ((orderBy c column rows).map column).Nodup :=
    ((orderBy_perm c column rows).map column).nodup_iff.2 h
  exact (orderBy_pairwise c column rows).imp₂
    (fun _ _ hle hne => lt_of_le_of_ne hle (c.key_injective.ne hne)) hnodup

end Queries

/-! ## Pages of a listing -/

structure Lists (serve : URL → Option Page) (all : List Text) : Prop where
  sorted : SortedBy c.key all
  ne_nil : ∀ x ∈ all, x ≠ []
  served : ∀ u, serve u = some (page u
    ((after c all (get (parse u.rawQuery) (ascii "last"))).take (maxEntries (parse u.rawQuery)))
    (maxEntries (parse u.rawQuery) < (after c all (get (parse u.rawQuery) (ascii "last"))).length))

variable {c}

variable {all : List Text}

/-- The next page goes on after the last element. -/
theorem after_last (hall : SortedBy c.key all) {last x n}
    (hx : ((after c all last).take n).getLast? = some x) :
    after c all x = (after c all last).drop n := by
  have hsorted : SortedBy c.key (after c all last) := hall.filter _
  rw [← take_append_drop n (after c all last)] at hsorted
  have hdrop := hsorted.filter_after hx
  rw [take_append_drop] at hdrop
  have hmem : x ∈ after c all last := mem_of_mem_take (List.mem_of_getLast? hx)
  have hlt : c.key last < c.key x := by simpa using (mem_filter.1 hmem).2
  rw [← hdrop, after, after, filter_filter]
  refine filter_congr fun y _ => ?_
  rw [Bool.eq_iff_iff, Bool.and_eq_true, decide_eq_true_eq, decide_eq_true_eq]
  exact ⟨fun hy => ⟨hy, hlt.trans hy⟩, And.left⟩

theorem maxEntries_pos (q : List (Text × Text)) : 0 < maxEntries q := by
  unfold maxEntries
  split
  · decide
  · split
    · decide
    · omega

theorem maxEntries_le (q : List (Text × Text)) : maxEntries q ≤ 9223372036854775807 := by
  unfold maxEntries
  split
  · decide
  next n hn =>
    have hle := atoi_le hn
    split
    · decide
    · omega

/-- The page size is read back. -/
theorem maxEntries_itoa {q n} (hn : 1 ≤ n)
    (hget : get q (ascii "n") = itoa n) : maxEntries q = pageSize n := by
  rw [maxEntries, hget, atoi_itoa, pageSize]
  split
  next h =>
    split at h
    · cases h
    next hmax => rw [if_neg hmax]
  next h =>
    split at h
    next hmax =>
      cases h
      rw [if_pos hmax, if_neg (by omega), Int.toNat_natCast]
    · cases h

theorem createLinkEntry_query (u : URL) (n : ℕ) (x : Text) (hn : 1 ≤ n)
    (hmax : n ≤ 9223372036854775807) :
    get (parse (createLinkEntry u n x).rawQuery) (ascii "last") = x ∧
      maxEntries (parse (createLinkEntry u n x).rawQuery) = n := by
  have hparse : parse (createLinkEntry u n x).rawQuery =
      [(ascii "last", x), (ascii "n", itoa n)] := parse_encode _
  rw [hparse]
  refine ⟨rfl, ?_⟩
  rw [maxEntries_itoa hn rfl, pageSize, if_pos hmax]

theorem page_link_none (u : URL) (entries : List Text) : (page u entries false).link = none := rfl

theorem page_link_some (u : URL) {entries x}
    (hx : entries.getLast? = some x) : (page u entries true).link =
      some (createLinkEntry u (maxEntries (parse u.rawQuery)) x) := by
  rw [page, if_pos rfl, hx, Option.map_some]

variable {serve : URL → Option Page}

/-- INTERNAL: there are pages to the end. -/
theorem Lists.pages_exist (h : Lists c serve all) (u : URL) :
    ∃ pages, Follows serve u pages ∧
      pages.flatten = after c all (get (parse u.rawQuery) (ascii "last")) ∧
      ∀ p ∈ pages, p.length ≤ maxEntries (parse u.rawQuery) := by
  -- on the number of entries that are left
  induction hlen : (after c all (get (parse u.rawQuery) (ascii "last"))).length using
    Nat.strong_induction_on generalizing u with
  | h k ih =>
    subst hlen
    have hserved := h.served u
    have hpos := maxEntries_pos (parse u.rawQuery)
    by_cases hmore : maxEntries (parse u.rawQuery) <
        (after c all (get (parse u.rawQuery) (ascii "last"))).length
    · rw [decide_eq_true hmore] at hserved
      have hne : (after c all (get (parse u.rawQuery) (ascii "last"))).take
          (maxEntries (parse u.rawQuery)) ≠ [] := by
        rw [Ne, take_eq_nil_iff, ← length_eq_zero_iff]
        omega
      have hx := List.getLast?_eq_some_getLast hne
      generalize List.getLast _ hne = x at hx
      obtain ⟨hlast, hsize⟩ := createLinkEntry_query u (maxEntries (parse u.rawQuery)) x hpos
        (maxEntries_le _)
      have hleft := after_last h.sorted hx
      obtain ⟨pages, hfollows, hflat, hlength⟩ := ih _ (by
        rw [hlast, hleft, length_drop]
        omega) (createLinkEntry u (maxEntries (parse u.rawQuery)) x) rfl
      refine ⟨_ :: pages, .more u _ _ pages hserved (page_link_some u hx) hfollows, ?_, ?_⟩
      · rw [flatten_cons, hflat, hlast, hleft]
        exact take_append_drop _ _
      · intro p hp
        rcases mem_cons.1 hp with rfl | hp
        · exact length_take_le _ _
        · exact (hlength p hp).trans hsize.le
    · rw [decide_eq_false hmore] at hserved
      refine ⟨_, .last u _ hserved (page_link_none u _), ?_, ?_⟩
      · rw [flatten_singleton]
        exact take_of_length_le (by omega)
      · intro p hp
        rw [mem_singleton.1 hp]
        exact length_take_le _ _

/-- **There is a link exactly if something is left.** -/
theorem Lists.link_iff (h : Lists c serve all) (u : URL) (p : Page) (hp : serve u = some p) :
    p.link.isSome = true ↔ ∃ x, x ∈ all ∧
      c.key (get (parse u.rawQuery) (ascii "last")) < c.key x ∧ x ∉ p.entries := by
  obtain rfl := Option.some.inj ((h.served u).symm.trans hp)
  have hpos := maxEntries_pos (parse u.rawQuery)
  have hmem (x : Text) : x ∈ all ∧ c.key (get (parse u.rawQuery) (ascii "last")) < c.key x ↔
      x ∈ after c all (get (parse u.rawQuery) (ascii "last")) := by
    rw [after, mem_filter, decide_eq_true_eq]
  have hsorted : SortedBy c.key (after c all (get (parse u.rawQuery) (ascii "last"))) :=
    h.sorted.filter _
  simp only [← and_assoc, hmem]
  generalize after c all (get (parse u.rawQuery) (ascii "last")) = left at hsorted ⊢
  generalize maxEntries (parse u.rawQuery) = n at hpos ⊢
  by_cases hmore : n < left.length
  · rw [decide_eq_true hmore]
    have hne : left.take n ≠ [] := by
      rw [Ne, take_eq_nil_iff, ← length_eq_zero_iff]
      omega
    rw [page_link_some u (List.getLast?_eq_some_getLast hne)]
    obtain ⟨y, hy⟩ := exists_mem_of_ne_nil (left.drop n) (by
      rw [Ne, drop_eq_nil_iff]
      omega)
    refine iff_of_true rfl ⟨y, mem_of_mem_drop hy, fun htake => ?_⟩
    rw [← take_append_drop n left] at hsorted
    exact lt_irrefl _ ((pairwise_append.1 hsorted).2.2 y htake y hy)
  · rw [decide_eq_false hmore, page_link_none]
    refine iff_of_false (by simp) ?_
    rintro ⟨x, hx, hnot⟩
    refine hnot ?_
    rw [page, take_of_length_le (by omega)]
    exact hx

/-- **The pages of a listing make up the listing.** -/
theorem Lists.complete (h : Lists c serve all) (path : Text) (n : ℕ) (hn : 1 ≤ n) :
    Complete c serve path n fun x => x ∈ all where
  pages := by
    have hparse : parse (firstRequest path n).rawQuery = [(ascii "n", itoa n)] := parse_encode _
    obtain ⟨pages, hfollows, hflat, hlength⟩ := h.pages_exist (firstRequest path n)
    have hall : after c all (get (parse (firstRequest path n).rawQuery) (ascii "last")) = all := by
      rw [hparse]
      refine filter_eq_self.2 fun x hx => ?_
      exact decide_eq_true (c.nil_lt x (h.ne_nil x hx))
    refine ⟨pages, hfollows, ?_, fun x => ?_, fun p hp => ?_⟩
    · rw [hflat, hall]
      exact h.sorted
    · rw [hflat, hall]
    · rw [← maxEntries_itoa hn (congrArg (get · (ascii "n")) hparse)]
      exact hlength p hp
  link := h.link_iff

/-! ## The handlers -/

/-- The database is asked whether something is left. -/
theorem any_more_eq {β : Type} (column : β → Text) {rows : List β} {last : Text} {n : ℕ}
    (hall : SortedBy c.key all) (hn : 0 < n) (hrows : rows.map column = (after c all last).take n) :
    (rows.getLast?.any fun x => 0 < (after c all (column x)).length) =
      decide (n < (after c all last).length) := by
  have hlast : ((after c all last).take n).getLast? = rows.getLast?.map column := by
    rw [← hrows, List.getLast?_map]
  cases hx : rows.getLast? with
  | none =>
    rw [hx, Option.map_none, List.getLast?_eq_none_iff, take_eq_nil_iff] at hlast
    have hnil : after c all last = [] := hlast.resolve_left hn.ne'
    rw [hnil, Option.any_none, eq_comm, decide_eq_false_iff_not]
    exact Nat.not_lt_zero n
  | some x =>
    rw [hx, Option.map_some] at hlast
    rw [Option.any_some, after_last hall hlast, length_drop, decide_eq_decide]
    omega

theorem page_eq {β : Type} (column : β → Text) (rows : List β) (p : β → Bool) (u : URL)
    (hnodup : ((rows.filter p).map column).Nodup) (last : Text) (n : ℕ) (hn : 0 < n)
    (all : List Text) (hall : all = (orderBy c column (rows.filter p)).map column) :
    page u
      (((orderBy c column (rows.filter fun x => p x ∧ c.key last < c.key (column x))).take n).map
        column)
      (((orderBy c column
        (rows.filter fun x => p x ∧ c.key last < c.key (column x))).take n).getLast?.any fun x =>
          0 < (rows.filter fun y => p y ∧ c.key (column x) < c.key (column y)).length) =
    page u ((after c all last).take n) (n < (after c all last).length) := by
  have hsorted : SortedBy c.key all := hall ▸ sortedBy_orderBy c column _ hnodup
  have hrows : ((orderBy c column
      (rows.filter fun x => p x ∧ c.key last < c.key (column x))).take n).map column =
      (after c all last).take n := by
    rw [map_take, orderBy_filter_map, hall]
  have hmore := any_more_eq column hsorted hn hrows
  simp only [length_filter_after c column rows p, ← hall, hrows]
  rw [hmore]

def tagNames (c : Collation κ) (db : Database) (r : Repository) : List Text :=
  (orderBy c Tag.name (db.tags.filter fun t => t.owner = r.owner)).map Tag.name

def catalogPaths (c : Collation κ) (db : Database) : List Text :=
  (orderBy c Repository.path (db.repositories.filter (hasManifest db))).map Repository.path

variable {db : Database} {r : Repository}

theorem mem_tagNames {x} : x ∈ tagNames c db r ↔ ∃ t ∈ db.tags, t.owner = r.owner ∧ t.name = x := by
  simp only [tagNames, mem_map, (orderBy_perm c Tag.name _).mem_iff, mem_filter,
    decide_eq_true_eq, and_assoc]

theorem mem_catalogPaths {x} :
    x ∈ catalogPaths c db ↔ ∃ r ∈ db.repositories, hasManifest db r = true ∧ r.path = x := by
  simp only [catalogPaths, mem_map, (orderBy_perm c Repository.path _).mem_iff,
    mem_filter, and_assoc]

theorem nodup_names (db : Database) (r : Repository) :
    ((db.tags.filter fun t => t.owner = r.owner).map Tag.name).Nodup := by
  refine (db.name_unique.filter _).map_on fun t ht t' ht' hname => ?_
  simp only [mem_filter, decide_eq_true_eq] at ht ht'
  cases t
  cases t'
  simp only [Tag.mk.injEq]
  exact ⟨ht.2.trans ht'.2.symm, hname⟩

theorem findByPath_self (hr : r ∈ db.repositories) : findByPath db r.path = some r := by
  obtain ⟨r', hr'⟩ : ∃ r', findByPath db r.path = some r' := by
    rw [← Option.isSome_iff_exists, findByPath, List.find?_isSome]
    exact ⟨r, hr, by simp⟩
  have hpath : r'.path = r.path := by simpa using List.find?_some hr'
  rw [hr', inj_on_of_nodup_map db.path_unique (List.mem_of_find?_eq_some hr') hr hpath]

/-- Tags are listed. -/
theorem getTags_lists (db : Database) (hr : r ∈ db.repositories) :
    Lists c (getTags c db r.path) (tagNames c db r) where
  sorted := sortedBy_orderBy c Tag.name _ (nodup_names db r)
  ne_nil := by
    intro x hx
    obtain ⟨t, ht, -, rfl⟩ := mem_tagNames.1 hx
    exact db.name_ne_nil t ht
  served := by
    intro u
    have heq := page_eq (c := c) Tag.name db.tags (fun t => t.owner = r.owner) u (nodup_names db r)
      (get (parse u.rawQuery) (ascii "last")) (maxEntries (parse u.rawQuery)) (maxEntries_pos _)
      (tagNames c db r) rfl
    simp only [getTags, dbGetTags, findByPath_self hr, Option.map_some, tagsPaginated,
      tagsCountAfterName]
    simp only [decide_eq_true_eq] at heq
    exact congrArg some heq

/-- Repositories are listed. -/
theorem getCatalog_lists (db : Database) : Lists c (getCatalog c db) (catalogPaths c db) where
  sorted := sortedBy_orderBy c Repository.path _ (db.path_unique.sublist
    (filter_sublist.map Repository.path))
  ne_nil := by
    intro x hx
    obtain ⟨r, hr, -, rfl⟩ := mem_catalogPaths.1 hx
    exact db.path_ne_nil r hr
  served := by
    intro u
    have heq := page_eq (c := c) Repository.path db.repositories (hasManifest db) u
      (db.path_unique.sublist (filter_sublist.map Repository.path))
      (get (parse u.rawQuery) (ascii "last")) (maxEntries (parse u.rawQuery)) (maxEntries_pos _)
      (catalogPaths c db) rfl
    exact congrArg some heq

/-- **Following the links from the first page is complete**, for the tags and for the repositories
that have a manifest, whatever the size of the pages. -/
theorem listings_complete (c : Collation κ) (db : Database) (path : Text) (n : ℕ) (hn : 1 ≤ n) :
    (∀ r ∈ db.repositories, Complete c (getTags c db r.path) path n fun x =>
      ∃ t ∈ db.tags, t.owner = r.owner ∧ t.name = x) ∧
    Complete c (getCatalog c db) path n fun x =>
      ∃ r ∈ db.repositories, hasManifest db r = true ∧ r.path = x := by
  refine ⟨fun r hr => ?_, ?_⟩
  · simpa only [mem_tagNames] using (getTags_lists (c := c) db hr).complete path n hn
  · simpa only [mem_catalogPaths] using (getCatalog_lists (c := c) db).complete path n hn

def byBytes : Collation Text where
  key := id
  key_injective := Function.injective_id
  nil_lt := by
    intro t ht
    obtain ⟨b, t, rfl⟩ := exists_cons_of_ne_nil ht
    exact nil_lt_cons b t

/-- INTERNAL: a repository with two tags, one of them with a letter that is escaped. -/
def twoTags : Database where
  repositories := [⟨1, 1, ascii "app"⟩]
  manifests := [⟨1, 1⟩]
  tags := [⟨⟨1, 1⟩, ascii "v2&"⟩, ⟨⟨1, 1⟩, ascii "v1"⟩]
  path_unique := by decide
  name_unique := by decide
  path_ne_nil := by decide
  name_ne_nil := by decide

/-- Two tags, one a page. -/
theorem two_tags_listed :
    (1 : ℕ) ≤ 1 ∧ Complete byBytes (getTags byBytes twoTags (ascii "app")) (ascii "/v2/") 1
      fun x => ∃ t ∈ twoTags.tags, t.owner = ⟨1, 1⟩ ∧ t.name = x :=
  ⟨le_rfl, (listings_complete byBytes twoTags (ascii "/v2/") 1 le_rfl).1 ⟨1, 1, ascii "app"⟩
    (mem_singleton.2 rfl)⟩

end ContainerRegistry.Analysis.Listings
