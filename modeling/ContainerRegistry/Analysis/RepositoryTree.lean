import ContainerRegistry.Analysis.PathSeparation
import ContainerRegistry.Model.RepositoryRows

/-!
# The tree of repositories

A valid path is clean, and its parent paths are the proper prefixes of its components. One insert
leaves a tree (`Tree.insert`); a call adds one row for each prefix that had none (`Adds`).
-/

namespace ContainerRegistry.Analysis.RepositoryRows

open Library List
open Model.Paths (Str)
open Model.RepositoryRows
open Analysis.Paths (ValidName component_of_name)

/-! ## Paths -/

def components (path : Str) : List Str := path.splitOn '/'

def joined (cs : List Str) : Str := ['/'].intercalate cs

def Fine (cs : List Str) : Prop := cs ≠ [] ∧ ∀ c ∈ cs, CleanPaths.Proper '/' '.' c

theorem joined_components (path : Str) : joined (components path) = path := intercalate_splitOn '/'

variable {cs : List Str}

theorem components_joined (h : Fine cs) : components (joined cs) = cs :=
  splitOn_intercalate '/' (fun c hc => (h.2 c hc).no_sep) h.1

theorem Fine.of_initial {a b} (h : Fine b) (ha : a ≠ []) (hab : a <+: b) : Fine a :=
  ⟨ha, fun c hc => h.2 c (hab.subset hc)⟩

/-- No component is longer than its path. -/
theorem length_le_joined {c} (hc : c ∈ cs) : c.length ≤ (joined cs).length := by
  induction cs with
  | nil => cases hc
  | cons d ds ih =>
    cases ds with
    | nil =>
      rw [mem_singleton] at hc
      simp [joined, hc]
    | cons e es =>
      have hsplit : joined (d :: e :: es) = d ++ '/' :: joined (e :: es) := by
        rw [joined, intercalate_cons_cons, append_assoc]
        rfl
      rw [hsplit, length_append, length_cons]
      rcases mem_cons.1 hc with rfl | hc
      · omega
      · have := ih hc
        omega

theorem joined_length_le {a b} (h : a <+: b) : (joined a).length ≤ (joined b).length := by
  obtain ⟨t, rfl⟩ := h
  by_cases ha : a = []
  · rw [ha]
    exact Nat.zero_le _
  by_cases ht : t = []
  · rw [ht, append_nil]
  · rw [joined, joined, CleanPaths.intercalate_append ha ht, length_append]
    exact Nat.le_add_right _ _

theorem headD_dropLast (h : cs.dropLast ≠ []) : cs.dropLast.headD [] = cs.headD [] := by
  obtain ⟨c, rest, hcs⟩ := exists_cons_of_ne_nil h
  obtain ⟨t, ht⟩ := dropLast_prefix cs
  rw [hcs] at ht ⊢
  rw [← ht]
  rfl

/-- A path that the registry accepts as the name of a repository. reference.go:246-258 -/
structure Valid (path : Str) : Prop where
  name : ValidName path
  length : path.length ≤ maxLength

theorem Valid.fine {path} (h : Valid path) : Fine (components path) :=
  ⟨splitOn_ne_nil '/' path, fun c hc => (component_of_name h.name c hc).1⟩

theorem splitRepositoryPath_joined (h : Fine cs) : splitRepositoryPath (joined cs) = cs := by
  have hcs := components_joined h
  rw [splitRepositoryPath, CleanPaths.clean_of_proper]
  · exact hcs
  · intro c hc
    exact h.2 c (hcs ▸ hc)

theorem repositoryName_joined (h : Fine cs) : repositoryName (joined cs) = cs.getLastD [] := by
  rw [repositoryName, splitRepositoryPath_joined h]

/-- The paths that lead from the components `done` on through `todo`. -/
def pathsFrom (done : List Str) : List Str → List Str
  | [] => []
  | c :: todo => joined (done ++ [c]) :: pathsFrom (done ++ [c]) todo

theorem range_map_eq_pathsFrom (done todo : List Str) :
    ((List.range todo.length).map fun i => joined (done ++ todo.take (i + 1))) =
      pathsFrom done todo := by
  induction todo generalizing done with
  | nil => rfl
  | cons c todo ih =>
    rw [length_cons, range_succ_eq_map, map_cons, map_map, pathsFrom, ← ih]
    congr 1
    apply map_congr_left
    intro i _
    simp

theorem repositoryParentPaths_eq (h : Fine cs) :
    repositoryParentPaths (joined cs) = pathsFrom [] cs.dropLast := by
  rw [repositoryParentPaths, splitRepositoryPath_joined h, ← range_map_eq_pathsFrom]
  rfl

theorem pathsFrom_append (done a b : List Str) :
    pathsFrom done (a ++ b) = pathsFrom done a ++ pathsFrom (done ++ a) b := by
  induction a generalizing done with
  | nil => simp [pathsFrom]
  | cons c a ih => simp [pathsFrom, ih]

theorem pathsFrom_nil (h : cs ≠ []) :
    pathsFrom [] cs = pathsFrom [] cs.dropLast ++ [joined cs] := by
  conv_lhs => rw [← dropLast_append_getLast h, pathsFrom_append]
  simp only [pathsFrom, nil_append, dropLast_append_getLast h]

/-- They are the paths of the prefixes. -/
theorem mem_pathsFrom {done todo path} :
    path ∈ pathsFrom done todo ↔ ∃ cs, cs ≠ [] ∧ cs <+: todo ∧ path = joined (done ++ cs) := by
  induction todo generalizing done with
  | nil =>
    simp only [pathsFrom, not_mem_nil, prefix_nil, false_iff, not_exists, not_and]
    intro cs hne heq
    exact absurd heq hne
  | cons c todo ih =>
    rw [pathsFrom, mem_cons, ih]
    constructor
    · rintro (rfl | ⟨cs, -, hcs, rfl⟩)
      · exact ⟨[c], by simp, by simp, rfl⟩
      · exact ⟨c :: cs, by simp, by simpa using hcs, by simp⟩
    · rintro ⟨cs, hne, hcs, rfl⟩
      obtain ⟨d, ds, rfl⟩ := exists_cons_of_ne_nil hne
      obtain ⟨rfl, hds⟩ := cons_prefix_cons.1 hcs
      cases ds with
      | nil => exact .inl rfl
      | cons e es => exact .inr ⟨e :: es, by simp, hds, by simp⟩

/-! ## Statements -/

section Statements

variable {db : Tables} (now : ℕ)

theorem bind_of_ok {α β : Type} {q : Query α} {rest : α → Query β} {db db' : Tables} {a : α}
    (h : q db = (.ok a, db')) : (q >>= rest) db = rest a db' := by
  simp only [bind, ExceptT.bind, ExceptT.mk, StateT.bind, h, ExceptT.bindCont]

def nextNamespace (db : Tables) : Tables := { db with namespaceSerial := db.namespaceSerial + 1 }

def nextRepository (db : Tables) : Tables := { db with repositorySerial := db.repositorySerial + 1 }

/-- INTERNAL: **a namespace is created or found**, and nothing else changes. -/
theorem createOrFindNamespace_spec {name} (hlength : name.length ≤ maxLength) :
    ∃ n db', createOrFindNamespace now name db = (.ok n, db') ∧ n.name = name ∧
      (n ∈ db.namespaces ∧ db' = nextNamespace db ∨
        (∀ m ∈ db.namespaces, m.name ≠ name) ∧ n.id = db.namespaceSerial ∧
          db' = { nextNamespace db with namespaces := n :: db.namespaces }) := by
  have hshort : ¬ maxLength < name.length := Nat.not_lt.2 hlength
  cases hfind : db.namespaces.find? (·.name = name) with
  | some n =>
    have hname : n.name = name := by simpa using List.find?_some hfind
    have hany : db.namespaces.any (·.name = name) = true :=
      any_eq_true.2 ⟨n, List.mem_of_find?_eq_some hfind, by simpa using hname⟩
    have hinsert : insertNamespace now name db = (.ok none, nextNamespace db) := by
      unfold insertNamespace
      rw [if_neg hshort, if_pos hany]
      rfl
    have hfound : findNamespace name (nextNamespace db) = (.ok (some n), nextNamespace db) := by
      unfold findNamespace nextNamespace
      rw [hfind]
    refine ⟨n, nextNamespace db, ?_, hname, .inl ⟨List.mem_of_find?_eq_some hfind, rfl⟩⟩
    rw [createOrFindNamespace, bind_of_ok hinsert]
    dsimp only
    rw [bind_of_ok hfound]
    rfl
  | none =>
    have hnone : ∀ m ∈ db.namespaces, m.name ≠ name := by simpa using hfind
    have hany : ¬ db.namespaces.any (·.name = name) = true := by simpa using hnone
    have hinsert : insertNamespace now name db = (.ok (some ⟨db.namespaceSerial, name, now⟩),
        { nextNamespace db with
          namespaces := ⟨db.namespaceSerial, name, now⟩ :: db.namespaces }) := by
      unfold insertNamespace
      rw [if_neg hshort, if_neg hany]
      rfl
    refine ⟨⟨db.namespaceSerial, name, now⟩, _, ?_, rfl, .inr ⟨hnone, rfl, rfl⟩⟩
    rw [createOrFindNamespace, bind_of_ok hinsert]
    rfl

/-- INTERNAL: **a repository is inserted**, or its path is taken. -/
theorem insertRepository_spec {r} (hname : r.name.length ≤ maxLength)
    (hpath : r.path.length ≤ maxLength)
    (hadmits : db.admits { r with id := db.repositorySerial, createdAt := now } = true) :
    (∃ old, db.repositories.find? (·.path = r.path) = some old ∧
      insertRepository now r db = (.ok none, nextRepository db)) ∨
    (∀ old ∈ db.repositories, old.path ≠ r.path) ∧
      insertRepository now r db =
        (.ok (some { r with id := db.repositorySerial, createdAt := now }),
          { nextRepository db with repositories :=
            { r with id := db.repositorySerial, createdAt := now } :: db.repositories }) := by
  have hshort : ¬ (maxLength < r.name.length ∨ maxLength < r.path.length) := by omega
  unfold insertRepository
  cases hfind : db.repositories.find? (·.path = r.path) with
  | some old =>
    have hany : db.repositories.any (·.path = r.path) = true :=
      any_eq_true.2 ⟨old, List.mem_of_find?_eq_some hfind, by
        simpa using List.find?_some hfind⟩
    refine .inl ⟨old, rfl, ?_⟩
    rw [if_neg hshort, if_pos hany]
    rfl
  | none =>
    have hnone : ∀ old ∈ db.repositories, old.path ≠ r.path := by simpa using hfind
    have hany : ¬ db.repositories.any (·.path = r.path) = true := by simpa using hnone
    refine .inr ⟨hnone, ?_⟩
    rw [if_neg hshort, if_neg hany, if_pos hadmits]
    rfl

end Statements

/-! ## The tree -/

section Trees

variable {db db' : Tables}

/-- `parent` is the id of the row with these components, or nothing if there are none. -/
def IsParent (db : Tables) (cs : List Str) (parent : Option ℕ) : Prop :=
  if cs = [] then parent = none
  else ∃ q ∈ db.repositories, q.path = joined cs ∧ parent = some q.id

/-- A row in its place: its name is the last component of its path, its namespace the first, its
parent the row of all but the last. -/
structure InPlace (db : Tables) (r : Repository) : Prop where
  fine : Fine (components r.path)
  name : r.name = (components r.path).getLastD []
  top : ∃ n ∈ db.namespaces, n.id = r.namespaceID ∧ n.name = (components r.path).headD []
  parent : IsParent db (components r.path).dropLast r.parentID

structure Tree (db : Tables) : Prop where
  names : (db.namespaces.map (·.name)).Nodup
  namespacesDiffer : (db.namespaces.map (·.id)).Nodup
  namespaceIDs : ∀ n ∈ db.namespaces, 0 < n.id ∧ n.id < db.namespaceSerial
  namespaceSerial : 0 < db.namespaceSerial
  paths : (db.repositories.map (·.path)).Nodup
  ids : (db.repositories.map (·.id)).Nodup
  serial : ∀ r ∈ db.repositories, 0 < r.id ∧ r.id < db.repositorySerial
  repositorySerial : 0 < db.repositorySerial
  rows : ∀ r ∈ db.repositories, InPlace db r

theorem tree_empty : Tree Tables.empty := by
  refine ⟨nodup_nil, nodup_nil, ?_, Nat.one_pos, nodup_nil, nodup_nil, ?_, Nat.one_pos, ?_⟩ <;>
    · intro x hx
      cases hx

theorem IsParent.mono {cs parent} (h : IsParent db cs parent)
    (hsub : db.repositories ⊆ db'.repositories) : IsParent db' cs parent := by
  unfold IsParent at h ⊢
  split
  · rwa [if_pos ‹_›] at h
  · rw [if_neg ‹_›] at h
    obtain ⟨q, hq, hpath⟩ := h
    exact ⟨q, hsub hq, hpath⟩

theorem InPlace.mono {r} (h : InPlace db r) (hnamespaces : db.namespaces ⊆ db'.namespaces)
    (hrepositories : db.repositories ⊆ db'.repositories) : InPlace db' r := by
  obtain ⟨n, hn, htop⟩ := h.top
  exact ⟨h.fine, h.name, ⟨n, hnamespaces hn, htop⟩, h.parent.mono hrepositories⟩

/-- INTERNAL: a row with a new value is added to rows whose values are all different. -/
theorem nodup_map_cons {α β : Type} {f : α → β} {a : α} {l : List α} (h : (l.map f).Nodup)
    (hne : ∀ x ∈ l, f x ≠ f a) : ((a :: l).map f).Nodup := by
  refine nodup_cons.2 ⟨fun hmem => ?_, h⟩
  obtain ⟨x, hx, heq⟩ := mem_map.1 hmem
  exact hne x hx heq

section

variable (h : Tree db)
include h

theorem Tree.of_nextNamespace : Tree (nextNamespace db) :=
  { h with
    namespaceIDs := fun n hn =>
      ⟨(h.namespaceIDs n hn).1, Nat.lt_succ_of_lt (h.namespaceIDs n hn).2⟩
    namespaceSerial := Nat.succ_pos _
    rows := fun r hr => (h.rows r hr).mono (List.Subset.refl _) (List.Subset.refl _) }

theorem Tree.of_nextRepository : Tree (nextRepository db) :=
  { h with
    serial := fun r hr => ⟨(h.serial r hr).1, Nat.lt_succ_of_lt (h.serial r hr).2⟩
    repositorySerial := Nat.succ_pos _
    rows := fun r hr => (h.rows r hr).mono (List.Subset.refl _) (List.Subset.refl _) }

/-- A namespace is added. -/
theorem Tree.addNamespace {n}
    (hname : ∀ m ∈ db.namespaces, m.name ≠ n.name) (hid : n.id = db.namespaceSerial) :
    Tree { nextNamespace db with namespaces := n :: db.namespaces } :=
  { h.of_nextNamespace with
    names := nodup_map_cons h.names hname
    namespacesDiffer := nodup_map_cons h.namespacesDiffer fun m hm =>
      hid ▸ Nat.ne_of_lt (h.namespaceIDs m hm).2
    namespaceIDs := fun m hm => by
      rcases mem_cons.1 hm with rfl | hm
      · rw [hid]
        exact ⟨h.namespaceSerial, Nat.lt_succ_self _⟩
      · exact h.of_nextNamespace.namespaceIDs m hm
    rows := fun r hr => (h.rows r hr).mono (subset_cons_self _ _) (List.Subset.refl _) }

/-- A row is added in its place. -/
theorem Tree.addRepository {r}
    (hpath : ∀ old ∈ db.repositories, old.path ≠ r.path) (hid : r.id = db.repositorySerial)
    (hplace : InPlace db r) :
    Tree { nextRepository db with repositories := r :: db.repositories } :=
  { h.of_nextRepository with
    paths := nodup_map_cons h.paths hpath
    ids := nodup_map_cons h.ids fun old hold => hid ▸ Nat.ne_of_lt (h.serial old hold).2
    serial := fun q hq => by
      rcases mem_cons.1 hq with rfl | hq
      · rw [hid]
        exact ⟨h.repositorySerial, Nat.lt_succ_self _⟩
      · exact h.of_nextRepository.serial q hq
    rows := fun q hq => by
      rcases mem_cons.1 hq with rfl | hq
      · exact hplace.mono (List.Subset.refl _) (subset_cons_self _ _)
      · exact (h.rows q hq).mono (List.Subset.refl _) (subset_cons_self _ _) }

theorem Tree.namespace_unique {n m} (hn : n ∈ db.namespaces)
    (hm : m ∈ db.namespaces) (heq : n.name = m.name) : n = m :=
  inj_on_of_nodup_map h.names hn hm heq

theorem Tree.row_unique {r q} (hr : r ∈ db.repositories)
    (hq : q ∈ db.repositories) (heq : r.path = q.path) : r = q :=
  inj_on_of_nodup_map h.paths hr hq heq

end

end Trees

/-! ## What a call adds -/

section Calls

variable {db db' db'' : Tables} (now : ℕ) {n : Namespace}

/-- The rows that have been added are those of the paths that had none, and all the paths have
theirs. -/
structure Adds (db db' : Tables) (paths : List Str) : Prop where
  namespaces : db'.namespaces = db.namespaces
  rows : ∃ new, db'.repositories = new ++ db.repositories ∧
    ∀ r ∈ new, r.path ∈ paths ∧ ∀ old ∈ db.repositories, old.path ≠ r.path
  covered : ∀ path ∈ paths, ∃ r ∈ db'.repositories, r.path = path

variable {paths : List Str}

theorem Adds.subset (h : Adds db db' paths) : db.repositories ⊆ db'.repositories := by
  obtain ⟨new, heq, -⟩ := h.rows
  rw [heq]
  exact subset_append_right _ _

theorem Adds.refl (db : Tables) : Adds db db [] := by
  refine ⟨rfl, ⟨[], rfl, ?_⟩, ?_⟩ <;>
    · intro x hx
      cases hx

/-- One call after another. -/
theorem Adds.trans {paths paths'} (h : Adds db db' paths) (h' : Adds db' db'' paths') :
    Adds db db'' (paths ++ paths') := by
  obtain ⟨new, heq, hnew⟩ := h.rows
  obtain ⟨new', heq', hnew'⟩ := h'.rows
  refine ⟨h'.namespaces.trans h.namespaces, ⟨new' ++ new, ?_, fun r hr => ?_⟩, fun path hpath => ?_⟩
  · rw [heq', heq, append_assoc]
  · rcases mem_append.1 hr with hr | hr
    · exact ⟨mem_append_right _ (hnew' r hr).1, fun old hold => (hnew' r hr).2 old (h.subset hold)⟩
    · exact ⟨mem_append_left _ (hnew r hr).1, (hnew r hr).2⟩
  · rcases mem_append.1 hpath with hpath | hpath
    · obtain ⟨r, hr, hrow⟩ := h.covered path hpath
      exact ⟨r, h'.subset hr, hrow⟩
    · exact h'.covered path hpath

theorem Adds.nothing (h : Adds db db' paths)
    (hall : ∀ path ∈ paths, ∃ r ∈ db.repositories, r.path = path) :
    db'.repositories = db.repositories := by
  obtain ⟨new, heq, hnew⟩ := h.rows
  cases new with
  | nil => exact heq
  | cons r new =>
    obtain ⟨hmem, hfresh⟩ := hnew r mem_cons_self
    obtain ⟨old, hold, hpath⟩ := hall r.path hmem
    exact absurd hpath (hfresh old hold)

/-- The paths after an insert. -/
theorem Adds.exists_iff (h : Adds db db' paths) (path : Str) :
    (∃ r ∈ db'.repositories, r.path = path) ↔
      (∃ r ∈ db.repositories, r.path = path) ∨ path ∈ paths := by
  obtain ⟨new, heq, hnew⟩ := h.rows
  constructor
  · rintro ⟨r, hr, rfl⟩
    rw [heq] at hr
    rcases mem_append.1 hr with hr | hr
    · exact .inr (hnew r hr).1
    · exact .inl ⟨r, hr, rfl⟩
  · rintro (⟨r, hr, rfl⟩ | hpath)
    · exact ⟨r, h.subset hr, rfl⟩
    · exact h.covered path hpath

def rowFor (n : Namespace) (cs : List Str) (parent : Option ℕ) : Repository :=
  ⟨0, n.id, repositoryName (joined cs), joined cs, parent, 0⟩

variable {cs : List Str} {parent : Option ℕ}

/-- The foreign keys of a new row are there. -/
theorem Tree.admits (h : Tree db) (hfine : Fine cs) (hn : n ∈ db.namespaces)
    (hname : n.name = cs.headD []) (hparent : IsParent db cs.dropLast parent) (id : ℕ) :
    db.admits { rowFor n cs parent with id := id, createdAt := now } = true := by
  unfold Tables.admits rowFor
  rw [Bool.and_eq_true]
  refine ⟨any_eq_true.2 ⟨n, hn, by simp⟩, ?_⟩
  by_cases hroot : cs.dropLast = []
  · rw [IsParent, if_pos hroot] at hparent
    rw [hparent]
    rfl
  rw [IsParent, if_neg hroot] at hparent
  obtain ⟨q, hq, hpath, rfl⟩ := hparent
  -- the parent begins with the same component, hence has the same namespace
  obtain ⟨m, hm, hid, htop⟩ := (h.rows q hq).top
  have hprefix : cs.dropLast <+: cs := dropLast_prefix cs
  rw [hpath, components_joined (hfine.of_initial hroot hprefix), headD_dropLast hroot,
    ← hname] at htop
  have hsame := h.namespace_unique hm hn htop
  simp only [Option.all_some, any_eq_true, decide_eq_true_eq]
  exact ⟨q, hq, by rw [← hid, hsame], rfl⟩

def Returns (path : Str) (res : Except Err Repository) (db : Tables) : Prop :=
  ∃ row, res = .ok row ∧ row ∈ db.repositories ∧ row.path = path

section Rows

variable (h : Tree db) (hfine : Fine cs) (hlength : (joined cs).length ≤ maxLength)
  (hn : n ∈ db.namespaces) (hname : n.name = cs.headD []) (hparent : IsParent db cs.dropLast parent)

include h hfine hlength hn hname hparent

/-- INTERNAL: **one insert**. The path has its row already, or it gets it, in its place. -/
theorem Tree.insert :
    (∃ old, db.repositories.find? (·.path = joined cs) = some old ∧ old.path = joined cs ∧
      Adds db (nextRepository db) [joined cs] ∧
      insertRepository now (rowFor n cs parent) db = (.ok none, nextRepository db)) ∨
    ∃ row db', insertRepository now (rowFor n cs parent) db = (.ok (some row), db') ∧ Tree db' ∧
      Adds db db' [joined cs] ∧ row ∈ db'.repositories ∧ row.path = joined cs := by
  have hshort : (repositoryName (joined cs)).length ≤ maxLength := by
    rw [repositoryName_joined hfine, List.getLastD_eq_getLast?,
      List.getLast?_eq_some_getLast hfine.1]
    exact Nat.le_trans (length_le_joined (getLast_mem hfine.1)) hlength
  rcases insertRepository_spec now hshort hlength
    (h.admits now hfine hn hname hparent db.repositorySerial) with ⟨old, hold, heq⟩ | ⟨hfresh, heq⟩
  · have hpath : old.path = (rowFor n cs parent).path := by simpa using List.find?_some hold
    refine .inl ⟨old, hold, hpath, ⟨rfl, ⟨[], rfl, nofun⟩, fun path hmem => ?_⟩, heq⟩
    rw [mem_singleton.1 hmem]
    exact ⟨old, List.mem_of_find?_eq_some hold, hpath⟩
  refine .inr ⟨_, _, heq, h.addRepository hfresh rfl ?_, ⟨rfl, ⟨[_], rfl, ?_⟩, ?_⟩,
    mem_cons_self, rfl⟩
  · have hcs : components (joined cs) = cs := components_joined hfine
    refine ⟨hcs.symm ▸ hfine, ?_, ⟨n, hn, rfl, hcs.symm ▸ hname⟩, hcs.symm ▸ hparent⟩
    exact (repositoryName_joined hfine).trans (congrArg (fun l => l.getLastD []) hcs).symm
  · intro r hr
    rw [mem_singleton] at hr
    subst hr
    exact ⟨mem_singleton.2 rfl, hfresh⟩
  · intro path hpath
    rw [mem_singleton] at hpath
    exact ⟨_, mem_cons_self, hpath.symm⟩

/-- A row is created or found. -/
theorem Tree.createOrFind_spec :
    ∃ res db', createOrFind now (rowFor n cs parent) db = (res, db') ∧ Tree db' ∧
      Adds db db' [joined cs] ∧ Returns (joined cs) res db' := by
  have hid : (rowFor n cs parent).namespaceID ≠ 0 := Nat.ne_of_gt (h.namespaceIDs n hn).1
  have hpure : (pure (rowFor n cs parent) : Query Repository) db = (.ok (rowFor n cs parent), db) :=
    rfl
  rw [createOrFind, if_neg hid, bind_of_ok hpure]
  rcases h.insert now hfine hlength hn hname hparent with
    ⟨old, hold, hpath, hadds, heq⟩ | ⟨row, db', heq, htree, hadds, hrow⟩ <;> beta_reduce <;>
    rw [bind_of_ok heq]
  · have hfound : findByPath (joined cs) (nextRepository db) =
        (.ok (some old), nextRepository db) := by
      unfold findByPath nextRepository
      rw [hold]
    exact ⟨.ok old, _, bind_of_ok hfound, h.of_nextRepository, hadds, old, rfl,
      List.mem_of_find?_eq_some hold, hpath⟩
  · exact ⟨.ok row, db', rfl, htree, hadds, row, rfl, hrow⟩

theorem Tree.create_spec :
    ∃ res db', create now (rowFor n cs parent) db = (res, db') ∧ Tree db' ∧
      Adds db db' [joined cs] := by
  rcases h.insert now hfine hlength hn hname hparent with
    ⟨old, -, -, hadds, heq⟩ | ⟨row, db', heq, htree, hadds, -⟩ <;> rw [create, bind_of_ok heq]
  · exact ⟨_, _, rfl, h.of_nextRepository, hadds⟩
  · exact ⟨_, _, rfl, htree, hadds⟩

end Rows

theorem Tree.currParentID (h : Tree db) {parent : Option Repository}
    (hparent : IsParent db cs (parent.map (·.id))) :
    (if 0 < (parent.map (·.id)).getD 0 then some ((parent.map (·.id)).getD 0) else none) =
      parent.map (·.id) := by
  unfold IsParent at hparent
  split at hparent
  · rw [hparent]
    rfl
  · obtain ⟨q, hq, -, heq⟩ := hparent
    rw [heq, Option.getD_some, if_pos (h.serial q hq).1]

/-- INTERNAL: **the loop over the parent paths.** The row of one round is the parent of the next. -/
theorem Tree.parents (todo : List Str) : ∀ (db : Tables) (done : List Str)
    (parent : Option Repository), Tree db → (todo ≠ [] → Fine (done ++ todo)) →
    (joined (done ++ todo)).length ≤ maxLength → n ∈ db.namespaces →
    (todo ≠ [] → n.name = (done ++ todo).headD []) →
    IsParent db done (parent.map (·.id)) →
    ∃ p db', createOrFindParents now n (pathsFrom done todo) parent db = (.ok p, db') ∧ Tree db' ∧
      Adds db db' (pathsFrom done todo) ∧ IsParent db' (done ++ todo) (p.map (·.id)) := by
  induction todo with
  | nil =>
    intro db done parent h _ _ _ _ hparent
    refine ⟨parent, db, rfl, h, Adds.refl db, ?_⟩
    rwa [append_nil]
  | cons c todo ih =>
    intro db done parent h hfine hlength hn hname hparent
    have happend : done ++ c :: todo = (done ++ [c]) ++ todo := by simp
    have hprefix : done ++ [c] <+: done ++ c :: todo := happend ▸ prefix_append _ _
    have hone : Fine (done ++ [c]) := (hfine (by simp)).of_initial (by simp) hprefix
    have hhead : n.name = (done ++ [c]).headD [] := by
      rw [hname (by simp)]
      cases done <;> rfl
    have hdone : (done ++ [c]).dropLast = done := dropLast_concat
    obtain ⟨res, db₁, heq, htree, hadds, row, rfl, hrow, hpath⟩ :=
      h.createOrFind_spec now hone
        (Nat.le_trans (joined_length_le hprefix) hlength) hn hhead (hdone.symm ▸ hparent)
    have hrowParent : IsParent db₁ (done ++ [c]) ((some row).map (·.id)) := by
      rw [IsParent, if_neg (by simp)]
      exact ⟨row, hrow, hpath, rfl⟩
    obtain ⟨p, db', hloop, htree', hadds', hp⟩ := ih db₁ (done ++ [c]) (some row) htree
      (fun _ => happend ▸ hfine (by simp)) (happend ▸ hlength) (hadds.namespaces.symm ▸ hn)
      (fun _ => happend ▸ hname (by simp)) hrowParent
    refine ⟨p, db', ?_, htree', hadds.trans hadds', happend.symm ▸ hp⟩
    rw [pathsFrom, createOrFindParents, h.currParentID hparent]
    exact (bind_of_ok heq).trans hloop

variable {path : Str}

/-- The tables after a call for a path; `db₁` are those once the namespace is there. -/
def Called (db : Tables) (path : Str) (P : Except Err Repository → Tables → Prop)
    (r : Except Err Repository × Tables) : Prop :=
  ∃ db₁, Tree r.2 ∧ db₁.repositories = db.repositories ∧
    ((∃ m ∈ db.namespaces, m.name = (components path).headD []) → db₁.namespaces = db.namespaces) ∧
    Adds db₁ r.2 (pathsFrom [] (components path)) ∧ P r.1 r.2

/-- INTERNAL: **a whole call.** Its namespace is there, then its parents, then its row. -/
theorem Tree.byPath_spec {leaf : Repository → Query Repository}
    {P : Except Err Repository → Tables → Prop} (h : Tree db) (hvalid : Valid path)
    (hleaf : ∀ {db n parent}, Tree db → n ∈ db.namespaces →
      n.name = (components path).headD [] → IsParent db (components path).dropLast parent →
      ∃ res db', leaf (rowFor n (components path) parent) db = (res, db') ∧ Tree db' ∧
      Adds db db' [path] ∧ P res db') : Called db path P (byPath leaf now path db) := by
  have hfine := hvalid.fine
  have hpath : joined (components path) = path := joined_components path
  have hprefix : (components path).dropLast <+: components path := dropLast_prefix _
  have htop : (topLevelName path).length ≤ maxLength := by
    obtain ⟨c, cs, hcs⟩ := exists_cons_of_ne_nil hfine.1
    have hc : topLevelName path ∈ components path := by
      rw [topLevelName, ← components, hcs]
      exact mem_cons_self
    have hle := length_le_joined hc
    rw [hpath] at hle
    exact Nat.le_trans hle hvalid.length
  obtain ⟨n, db₁, hns, hname, hcases⟩ := createOrFindNamespace_spec now htop
  have htree₁ : Tree db₁ := by
    rcases hcases with ⟨-, rfl⟩ | ⟨hfresh, hid, rfl⟩
    · exact h.of_nextNamespace
    · exact h.addNamespace (fun m hm => hname.symm ▸ hfresh m hm) hid
  have hn : n ∈ db₁.namespaces := by
    rcases hcases with ⟨hn, rfl⟩ | ⟨-, -, rfl⟩
    · exact hn
    · exact mem_cons_self
  obtain ⟨p, db₂, hparents, htree₂, hadds₂, hp⟩ := Tree.parents now
    (components path).dropLast db₁ [] none htree₁
    (fun hne => hfine.of_initial hne hprefix)
    (Nat.le_trans (joined_length_le hprefix) (hpath.symm ▸ hvalid.length)) hn
    (fun hne => hname.trans (headD_dropLast hne).symm) rfl
  obtain ⟨res, db', hrun, htree', hadds', hP⟩ := hleaf htree₂ (hadds₂.namespaces.symm ▸ hn) hname hp
  have hpaths : repositoryParentPaths path = pathsFrom [] (components path).dropLast :=
    (congrArg repositoryParentPaths hpath).symm.trans (repositoryParentPaths_eq hfine)
  rw [rowFor, hpath] at hrun
  rw [byPath, bind_of_ok hns, hpaths, bind_of_ok hparents, hrun]
  refine ⟨db₁, htree', ?_, fun hm => ?_, ?_, hP⟩
  · rcases hcases with ⟨-, rfl⟩ | ⟨-, -, rfl⟩ <;> rfl
  · rcases hcases with ⟨-, rfl⟩ | ⟨hfresh, -, rfl⟩
    · rfl
    · obtain ⟨m, hm, heq⟩ := hm
      exact absurd heq (hfresh m hm)
  · rw [pathsFrom_nil hfine.1, hpath]
    exact hadds₂.trans hadds'

theorem Tree.createByPath_spec (h : Tree db) (hvalid : Valid path) :
    Called db path (fun _ _ => True) (createByPath now path db) := by
  have hpath : joined (components path) = path := joined_components path
  refine h.byPath_spec now hvalid fun ht hn hname hparent => ?_
  obtain ⟨res, db', hrun, ht', hadds⟩ :=
    ht.create_spec now hvalid.fine (hpath.symm ▸ hvalid.length) hn hname hparent
  exact ⟨res, db', hrun, ht', hpath ▸ hadds, trivial⟩

/-- INTERNAL: **`CreateOrFindByPath`** returns the row of the path. -/
theorem Tree.createOrFindByPath_spec (h : Tree db) (hvalid : Valid path) :
    Called db path (Returns path) (createOrFindByPath now path db) := by
  have hpath : joined (components path) = path := joined_components path
  refine h.byPath_spec now hvalid fun ht hn hname hparent => ?_
  have hspec := ht.createOrFind_spec now hvalid.fine (hpath.symm ▸ hvalid.length) hn hname hparent
  rwa [hpath] at hspec

theorem Called.tree {P : Except Err Repository → Tables → Prop} {r} (h : Called db path P r) :
    Tree r.2 ∧ ∀ q, (∃ row ∈ r.2.repositories, row.path = q) ↔
      (∃ row ∈ db.repositories, row.path = q) ∨ q ∈ pathsFrom [] (components path) := by
  obtain ⟨db₁, htree, hrows, -, hadds, -⟩ := h
  exact ⟨htree, hrows ▸ hadds.exists_iff⟩

theorem Tree.of_perform (h : Tree db) {c : Call} (hvalid : Valid c.path) :
    Tree (c.perform now db).2 ∧ ∀ path, (∃ r ∈ (c.perform now db).2.repositories, r.path = path) ↔
      (∃ r ∈ db.repositories, r.path = path) ∨ path ∈ pathsFrom [] (components c.path) := by
  cases c with
  | createByPath path => exact (h.createByPath_spec now hvalid).tree
  | createOrFindByPath path => exact (h.createOrFindByPath_spec now hvalid).tree

theorem Tree.createOrFindByPath_again (h : Tree db) (hvalid : Valid path)
    (hall : ∀ q ∈ pathsFrom [] (components path), ∃ r ∈ db.repositories, r.path = q)
    {row} (hrow : row ∈ db.repositories) (hpath : row.path = path) :
    ∃ db', createOrFindByPath now path db = (.ok row, db') ∧
      db'.repositories = db.repositories ∧ db'.namespaces = db.namespaces := by
  obtain ⟨db₁, -, hrows, hns, hadds, found, hres, hfound, hfpath⟩ :=
    h.createOrFindByPath_spec now hvalid
  have hsame : (createOrFindByPath now path db).2.repositories = db.repositories :=
    (hadds.nothing (hrows.symm ▸ hall)).trans hrows
  have heq : found = row := h.row_unique (hsame ▸ hfound) hrow (hfpath.trans hpath.symm)
  obtain ⟨m, hm, -, hmname⟩ := (h.rows row hrow).top
  refine ⟨_, Prod.ext (heq ▸ hres) rfl, hsame, hadds.namespaces.trans (hns ⟨m, hm, hpath ▸ hmname⟩)⟩

end Calls

/-! ## Sequences of calls -/

/-- The path is one that a call was made for, or a parent of one. -/
def Created (calls : List (ℕ × Call)) (path : Str) : Prop :=
  ∃ c ∈ calls, ∃ cs, cs ≠ [] ∧ cs <+: components c.2.path ∧ path = joined cs

/-- INTERNAL: sequences of calls, by induction. -/
theorem Tree.of_performAll (calls : List (ℕ × Call)) : ∀ {db : Tables}, Tree db →
    (∀ c ∈ calls, Valid c.2.path) →
    Tree (performAll calls db) ∧ ∀ path, (∃ r ∈ (performAll calls db).repositories, r.path = path) ↔
      (∃ r ∈ db.repositories, r.path = path) ∨ Created calls path := by
  induction calls with
  | nil =>
    intro db h _
    refine ⟨h, fun path => ⟨.inl, ?_⟩⟩
    rintro (hold | ⟨c, hc, -⟩)
    · exact hold
    · cases hc
  | cons c calls ih =>
    intro db h hvalid
    obtain ⟨htree, hrows⟩ := h.of_perform c.1 (hvalid c mem_cons_self)
    obtain ⟨htree', hrows'⟩ := ih htree fun d hd => hvalid d (mem_cons_of_mem _ hd)
    refine ⟨htree', fun path => (hrows' path).trans ?_⟩
    rw [hrows path, mem_pathsFrom, or_assoc]
    refine or_congr_right ⟨?_, ?_⟩
    · rintro (hpath | ⟨d, hd, hpath⟩)
      · exact ⟨c, mem_cons_self, hpath⟩
      · exact ⟨d, mem_cons_of_mem _ hd, hpath⟩
    · rintro ⟨d, hd, hpath⟩
      rcases mem_cons.1 hd with rfl | hd
      · exact .inl hpath
      · exact .inr ⟨d, hd, hpath⟩

theorem Created.parents {calls path q}
    (hvalid : ∀ c ∈ calls, Valid c.2.path) (h : Created calls path)
    (hq : q ∈ pathsFrom [] (components path)) : Created calls q := by
  obtain ⟨c, hc, cs, hne, hprefix, rfl⟩ := h
  rw [components_joined ((hvalid c hc).fine.of_initial hne hprefix)] at hq
  obtain ⟨ds, hds, hprefix', rfl⟩ := mem_pathsFrom.1 hq
  exact ⟨c, hc, ds, hds, hprefix'.trans hprefix, rfl⟩

/-- **The rows are a tree.** After any calls with valid paths there is exactly one row for each path
of a call and each of its parent paths, ids differ, and a row refers to the row of its parent path
and to its namespace. `CreateOrFindByPath` returns the row of its path. -/
theorem repositories_form_tree (calls : List (ℕ × Call)) (hvalid : ∀ c ∈ calls, Valid c.2.path) :
    let db := performAll calls Tables.empty
    (db.repositories.map (·.path)).Nodup ∧ (db.namespaces.map (·.name)).Nodup ∧
    (db.repositories.map (·.id)).Nodup ∧ (db.namespaces.map (·.id)).Nodup ∧
    (∀ path, (∃ r ∈ db.repositories, r.path = path) ↔ Created calls path) ∧
    (∀ r ∈ db.repositories,
      r.name = (components r.path).getLastD [] ∧
      IsParent db (components r.path).dropLast r.parentID ∧
      ∃ n ∈ db.namespaces, n.id = r.namespaceID ∧ n.name = (components r.path).headD []) ∧
    ∀ path now, Valid path →
      (∃ row db', createOrFindByPath now path db = (.ok row, db') ∧ row.path = path ∧
        row ∈ db'.repositories ∧ db.repositories ⊆ db'.repositories) ∧
      ∀ row ∈ db.repositories, row.path = path →
        ∃ db', createOrFindByPath now path db = (.ok row, db') ∧
          db'.repositories = db.repositories ∧ db'.namespaces = db.namespaces := by
  intro db
  obtain ⟨htree, hpaths⟩ : Tree db ∧ ∀ path, (∃ r ∈ db.repositories, r.path = path) ↔
      (∃ r ∈ Tables.empty.repositories, r.path = path) ∨ Created calls path :=
    Tree.of_performAll calls tree_empty hvalid
  have hcreated : ∀ path, (∃ r ∈ db.repositories, r.path = path) ↔ Created calls path := by
    intro path
    rw [hpaths path, or_iff_right]
    rintro ⟨r, hr, -⟩
    cases hr
  refine ⟨htree.paths, htree.names, htree.ids, htree.namespacesDiffer, hcreated, fun r hr => ?_,
    fun path now hpath => ⟨?_, ?_⟩⟩
  · have hplace := htree.rows r hr
    exact ⟨hplace.name, hplace.parent, hplace.top⟩
  · obtain ⟨db₁, -, hrows, -, hadds, row, hres, hrow, hrowPath⟩ :=
      htree.createOrFindByPath_spec now hpath
    exact ⟨row, _, Prod.ext hres rfl, hrowPath, hrow, hrows ▸ hadds.subset⟩
  · rintro row hrow rfl
    refine htree.createOrFindByPath_again now hpath (fun q hq => ?_) hrow rfl
    exact (hcreated q).2 (((hcreated row.path).1 ⟨row, hrow, rfl⟩).parents hvalid hq)

/-- `a/b` is created with its parent `a`, which a later call finds. -/
theorem parent_found_again : ∃ db a b,
    db = performAll [(0, .createByPath "a/b".toList), (1, .createOrFindByPath "a".toList)]
      Tables.empty ∧
    a ∈ db.repositories ∧ a.path = "a".toList ∧ b ∈ db.repositories ∧ b.path = "a/b".toList ∧
    b.parentID = some a.id ∧
    ∃ db', createOrFindByPath 2 "a".toList db = (.ok a, db') ∧
      db'.repositories = db.repositories ∧ db'.namespaces = db.namespaces := by
  have hone : Valid "a".toList := ⟨by decide +kernel, by decide⟩
  have htwo : Valid "a/b".toList := ⟨by decide +kernel, by decide⟩
  have hcomponents : components "a/b".toList = [['a'], ['b']] := by decide
  obtain ⟨-, -, -, -, hrows, hplace, hagain⟩ := repositories_form_tree
    [(0, .createByPath "a/b".toList), (1, .createOrFindByPath "a".toList)] (by
      intro c hc
      simp only [mem_cons, not_mem_nil, or_false] at hc
      rcases hc with rfl | rfl
      · exact htwo
      · exact hone)
  obtain ⟨b, hb, hbpath⟩ := (hrows "a/b".toList).2
    ⟨_, mem_cons_self, [['a'], ['b']], by simp, hcomponents ▸ prefix_rfl, rfl⟩
  obtain ⟨-, hparent, -⟩ := hplace b hb
  rw [hbpath, hcomponents] at hparent
  obtain ⟨a, ha, hapath, hid⟩ := hparent
  exact ⟨_, a, b, rfl, ha, hapath, hb, hbpath, hid, (hagain _ 2 hone).2 a ha hapath⟩

end ContainerRegistry.Analysis.RepositoryRows
