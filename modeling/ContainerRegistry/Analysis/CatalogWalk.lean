import ContainerRegistry.Library.SortedListing
import ContainerRegistry.Model.Catalog

/-!
# The walk behind the catalog

The callback is called with the paths of the tree in order (`visited`). Leaving out the directories
behind a full page changes neither the page nor how the walk ends (`walk_same`), so a page has the
first repositories of the listing after `last` (`repositories_spec`).
-/

namespace ContainerRegistry.Analysis.Catalogs

open Library Model.Catalogs List

variable {S : Stored} {n fuel : ℕ} {last : List Char} {p dir : Path} {c : Component}

/-! ## The order of names -/

def replaceSlash (x : Char) : Char := if x = '/' then zero else x

/-- Paths are compared with slashes as the least character. -/
theorem lessPath_iff {a b} : lessPath a b = true ↔ a.map replaceSlash < b.map replaceSlash := by
  unfold lessPath
  induction a generalizing b with
  | nil =>
    cases b with
    | nil | cons y b => simp [compareReplaceInline]
  | cons x a ih =>
    cases b with
    | nil => simp [compareReplaceInline]
    | cons y b =>
      rw [map_cons, map_cons, cons_lt_cons_iff, ← ih]
      simp only [compareReplaceInline]
      change ((if replaceSlash x < replaceSlash y then Ordering.lt
        else if replaceSlash y < replaceSlash x then Ordering.gt
        else compareReplaceInline '/' zero a b) == Ordering.lt) = true ↔ _
      rcases lt_trichotomy (replaceSlash x) (replaceSlash y) with h | h | h
      · simp [h]
      · simp [h]
      · simp [h, lt_asymm h, ne_of_gt h]

/-- What holds of the letters of a valid component. -/
theorem letters_of_valid (h : validComponent c = true) :
    c ≠ [] ∧ c.head? ≠ some '_' ∧ ∀ x ∈ c, x ≠ '/' ∧ zero < x := by
  simp only [validComponent, Bool.and_eq_true, all_eq_true, bne_iff_ne, ne_eq,
    Bool.not_eq_true', isEmpty_eq_false_iff] at h
  refine ⟨h.1.1, h.1.2, fun x hx => ⟨(h.2 x hx).1, lt_of_le_of_ne ?_ (Ne.symm (h.2 x hx).2)⟩⟩
  exact Nat.zero_le _

/-- A path with its slashes replaced. -/
theorem map_joinPath (h : ∀ c ∈ p, validComponent c = true) :
    (joinPath p).map replaceSlash = List.intercalate [zero] p := by
  unfold joinPath
  induction p with
  | nil => rfl
  | cons c p ih =>
    have ih := ih fun c hc => h c (mem_cons_of_mem _ hc)
    have hletters : ∀ x ∈ c, replaceSlash x = id x := fun x hx =>
      if_neg ((letters_of_valid (h c mem_cons_self)).2.2 x hx).1
    have hc : c.map replaceSlash = c := (map_congr_left hletters).trans (map_id c)
    rw [intercalate_cons, intercalate_cons, map_append, hc]
    cases p with
    | nil => rfl
    | cons d p =>
      rw [joinedTail_cons, joinedTail_cons, map_cons, ih]
      rfl

/-- **`lessPath` is the order of component lists.** -/
theorem lessPath_joinPath {q} (hp : ∀ c ∈ p, validComponent c = true)
    (hq : ∀ c ∈ q, validComponent c = true) :
    lessPath (joinPath p) (joinPath q) = true ↔ p < q := by
  have hparts : ∀ r : Path, (∀ c ∈ r, validComponent c = true) →
      ∀ c ∈ r, c ≠ [] ∧ ∀ x ∈ c, zero < x := by
    intro r hr c hc
    obtain ⟨hne, -, hletters⟩ := letters_of_valid (hr c hc)
    exact ⟨hne, fun x hx => (hletters x hx).2⟩
  rw [lessPath_iff, map_joinPath hp, map_joinPath hq]
  exact intercalate_lt_iff (hparts p hp) (hparts q hq)

/-! ## The storage -/

/-- INTERNAL: the directories of the layout are no names. -/
theorem special_not_valid : validComponent layers = false ∧ validComponent uploads = false := by
  decide

/-- INTERNAL: a path is there if something below it is. -/
theorem occupied_iff : S.tree.occupied p = true ↔ ∃ q ∈ S.paths, p <+: q := by
  simp [ObjectTree.occupied, Stored.tree]

/-- INTERNAL: there are no files. -/
theorem isDir_tree : S.tree.isDir p = S.tree.occupied p := by
  have hread : S.tree.read p = none := by
    by_contra hcon
    obtain ⟨a, ha⟩ := Option.ne_none_iff_exists'.1 hcon
    obtain ⟨q, -, hq⟩ := mem_map.1 (ObjectTree.read_eq_some.1 ha)
    cases hq
  simp [ObjectTree.isDir, hread]

/-- INTERNAL: a path that is not empty leads to the layers of a repository, or to an upload. -/
theorem mem_paths {q} (h : q ∈ S.paths) (hq : q ≠ []) :
    (∃ r ∈ S.names, q = r.components ++ [layers]) ∨
      ∃ r ∈ S.begun, q = r.components ++ [uploads] := by
  simp only [Stored.paths, mem_append, mem_map] at h
  rcases h with (h | ⟨r, hr, rfl⟩) | ⟨r, hr, rfl⟩
  · split at h
    · exact absurd (mem_singleton.1 h) hq
    · cases h
  · exact .inl ⟨r, hr, rfl⟩
  · exact .inr ⟨r, hr, rfl⟩

/-- The directory of a name. -/
def IsDir (S : Stored) (p : Path) : Prop :=
  p ≠ [] ∧ ∃ r ∈ S.names ++ S.begun, p <+: r.components

/-- **What is in a directory**: the layers, if it is a repository, an upload, and directories of
names. -/
theorem child_cases (h : S.tree.occupied (dir ++ [c]) = true) :
    (c = layers ∧ ∃ r ∈ S.names, dir = r.components) ∨ c = uploads ∨
      validComponent c = true ∧ IsDir S (dir ++ [c]) := by
  obtain ⟨q, hq, hpre⟩ := occupied_iff.1 h
  have hne : q ≠ [] := by
    rintro rfl
    simpa using hpre.length_le
  have hbelow : ∀ r ∈ S.names ++ S.begun, dir ++ [c] <+: r.components →
      validComponent c = true ∧ IsDir S (dir ++ [c]) := fun r hr hpre =>
    ⟨r.valid c (hpre.subset (mem_append_right _ (mem_singleton.2 rfl))), by simp, r, hr, hpre⟩
  rcases mem_paths hq hne with ⟨r, hr, rfl⟩ | ⟨r, hr, rfl⟩ <;>
    rcases prefix_concat_iff.1 hpre with heq | hpre
  · obtain ⟨rfl, hc⟩ := append_inj' heq rfl
    exact .inl ⟨singleton_inj.1 hc, r, hr, rfl⟩
  · exact .inr (.inr (hbelow r (mem_append_left _ hr) hpre))
  · exact .inr (.inl (singleton_inj.1 (append_inj' heq rfl).2))
  · exact .inr (.inr (hbelow r (mem_append_right _ hr) hpre))

/-- INTERNAL: the directories of the layout are empty. -/
theorem children_special (hc : validComponent c = false) : S.tree.children (dir ++ [c]) = [] := by
  refine eq_nil_iff_forall_not_mem.2 fun d hd => ?_
  obtain ⟨q, hq, hpre⟩ := occupied_iff.1 (ObjectTree.mem_children.1 hd)
  have hne : q ≠ [] := by
    rintro rfl
    simpa using hpre.length_le
  have hvalid : ∀ (r : Name) x, dir ++ [c] ++ [d] <+: r.components ++ [x] →
      validComponent c = true := by
    intro r x hpre
    have hbelow : dir ++ [c] <+: r.components := by
      rcases prefix_concat_iff.1 hpre with heq | hpre
      · exact (append_inj' heq rfl).1 ▸ prefix_rfl
      · exact (prefix_append _ _).trans hpre
    exact r.valid c (hbelow.subset (by simp))
  rcases mem_paths hq hne with ⟨r, -, rfl⟩ | ⟨r, -, rfl⟩ <;> simp [hvalid r _ hpre] at hc

/-- What a full walk of the repositories root comes to. -/
def visited (S : Stored) : List Path := S.tree.preorder (S.tree.depth + 1) []

theorem mem_visited : p ∈ visited S ↔ S.tree.occupied p = true ∧ p ≠ [] := by
  rw [visited, ObjectTree.mem_preorder (by simp)]
  refine and_congr_right fun _ => ?_
  cases p <;> simp

theorem isDir_mem_visited (h : IsDir S p) : p ∈ visited S := by
  obtain ⟨hne, r, hr, hpre⟩ := h
  refine mem_visited.2 ⟨occupied_iff.2 ?_, hne⟩
  rcases mem_append.1 hr with hr | hr
  · refine ⟨r.components ++ [layers], ?_, hpre.trans (prefix_append _ _)⟩
    exact mem_append_left _ (mem_append_right _ (mem_map_of_mem hr))
  · refine ⟨r.components ++ [uploads], ?_, hpre.trans (prefix_append _ _)⟩
    exact mem_append_right _ (mem_map_of_mem hr)

/-! ## What the callback does -/

/-- The path of a repository after `last` is found at its layers. -/
def found (last : List Char) (p : Path) : List Path :=
  let repo := if p = [layers] then p else p.dropLast
  if p.getLast? = some layers ∧ lessPath last (joinPath repo) then [repo] else []

/-- The callback goes into the directories of names. -/
def entered (p : Path) : Bool := p.getLast?.all fun c => c.head? != some '_'

def meet (n : ℕ) (last : List Char) (s : Found) (p : Path) : Found := (visitor n last s p).1

variable {a b s : Found}

/-- INTERNAL: **the callback** adds what it finds, and sees a directory with the page full. -/
theorem meet_eq : meet n last s p = ⟨s.repos ++ found last p,
    s.finishedWalk || (entered p && s.repos.length == n)⟩ := by
  obtain ⟨repos, finished⟩ := s
  unfold meet visitor handleRepository found entered
  cases hp : p.getLast? with
  | none => by_cases hn : repos.length = n <;> simp [hn]
  | some c =>
    by_cases hc : c = layers
    · subst hc
      have hhead : layers.head? = some '_' := rfl
      by_cases hless : lessPath last (joinPath (if p = [layers] then p else p.dropLast)) = true <;>
        simp [hless, hhead]
    · by_cases hhead : c.head? = some '_'
      · simp [hc, hhead]
      · by_cases hn : repos.length = n <;> simp [hc, hhead, hn]

/-- INTERNAL: **a directory is left out** if it is of the layout, or the page is full. -/
theorem skipDir_cases (h : (visitor n last s p).2 = .skipDir) :
    entered p = false ∨ (meet n last s p).finishedWalk = true ∧
      n ≤ (meet n last s p).repos.length := by
  by_cases he : entered p = true
  · right
    have hfull : s.repos.length = n := by
      by_contra hne
      unfold visitor handleRepository at h
      unfold entered at he
      cases hp : p.getLast? with
      | none => simp [hp, hne] at h
      | some c =>
        rw [hp] at he
        have hhead : c.head? ≠ some '_' := by simpa using he
        have hc : c ≠ layers := fun hc => hhead (hc ▸ rfl)
        simp [hp, hc, hhead, hne] at h
    rw [meet_eq]
    simp [he, hfull]
  · exact .inl (Bool.eq_false_iff.2 he)

/-- The two states are equal, or agree on a page that has been full and on whether the walk is
finished. -/
def Same (n : ℕ) (a b : Found) : Prop :=
  a = b ∨ a.finishedWalk = true ∧ b.finishedWalk = true ∧ n ≤ a.repos.length ∧
    n ≤ b.repos.length ∧ a.repos.take n = b.repos.take n

theorem Same.page (h : Same n a b) :
    a.repos.take n = b.repos.take n ∧ a.finishedWalk = b.finishedWalk := by
  rcases h with rfl | ⟨ha, hb, -, -, htake⟩
  · exact ⟨rfl, rfl⟩
  · exact ⟨htake, ha.trans hb.symm⟩

theorem Same.meet (last : List Char) (h : Same n a b) (p : Path) :
    Same n (meet n last a p) (meet n last b p) := by
  rcases h with rfl | ⟨ha, hb, hlen, hlen', htake⟩
  · exact .inl rfl
  rw [meet_eq, meet_eq]
  refine .inr ⟨by simp [ha], by simp [hb], ?_, ?_, ?_⟩
  · exact hlen.trans (length_append ▸ Nat.le_add_right _ _)
  · exact hlen'.trans (length_append ▸ Nat.le_add_right _ _)
  · rw [take_append_of_le_length hlen, take_append_of_le_length hlen', htake]

/-- INTERNAL: what comes behind a full page does not matter. -/
theorem Same.of_full (ha : a.finishedWalk = true) (hlen : n ≤ a.repos.length) (h : Same n a b)
    (ps : List Path) : Same n a (ps.foldl (Catalogs.meet n last) b) := by
  induction ps generalizing b with
  | nil => exact h
  | cons p ps ih =>
    refine ih (.inr ?_)
    obtain ⟨hb, hlen', htake⟩ : b.finishedWalk = true ∧ n ≤ b.repos.length ∧
        a.repos.take n = b.repos.take n := by
      rcases h with rfl | ⟨-, hb, -, hlen', htake⟩
      · exact ⟨ha, hlen, rfl⟩
      · exact ⟨hb, hlen', htake⟩
    rw [meet_eq]
    refine ⟨ha, by simp [hb], hlen, hlen'.trans (length_append ▸ Nat.le_add_right _ _), ?_⟩
    rw [take_append_of_le_length hlen', htake]

/-! ## The walk -/

/-- INTERNAL: one directory, if the walks of those in it are as they should be. -/
theorem walkChildren_same {cs} (hcs : ∀ c ∈ cs, S.tree.occupied (dir ++ [c]) = true)
    (hwalk : ∀ c ∈ cs, ∀ a b, Same n a b →
      ∃ a', walkFallback S.tree (visitor n last) fuel (dir ++ [c]) a = some (a', none) ∧
        Same n a' ((S.tree.preorder fuel (dir ++ [c])).foldl (meet n last) b))
    (h : Same n a b) :
    ∃ a', walkChildren S.tree (visitor n last) (walkFallback S.tree (visitor n last) fuel) dir cs
        a = some (a', none) ∧
      Same n a' ((cs.flatMap fun c => (dir ++ [c]) :: S.tree.preorder fuel (dir ++ [c])).foldl
        (meet n last) b) := by
  induction cs generalizing a b with
  | nil => exact ⟨a, rfl, h⟩
  | cons c cs ih =>
    have hocc := hcs c mem_cons_self
    have hisDir : S.tree.isDir (dir ++ [c]) = true := isDir_tree.trans hocc
    have ih := fun {a b} => @ih a b (fun c hc => hcs c (mem_cons_of_mem _ hc))
      fun c hc => hwalk c (mem_cons_of_mem _ hc)
    rw [flatMap_cons, foldl_append, foldl_cons, walkChildren]
    have hmeet : (visitor n last a (dir ++ [c])).1 = meet n last a (dir ++ [c]) := rfl
    rcases hv : visitor n last a (dir ++ [c]) with ⟨a₁, v⟩
    rw [hv] at hmeet
    obtain rfl : a₁ = meet n last a (dir ++ [c]) := hmeet
    cases v with
    | proceed =>
      obtain ⟨a₂, ha₂, hsame₂⟩ := hwalk c mem_cons_self _ _ (h.meet last (dir ++ [c]))
      obtain ⟨a', ha', hsame⟩ := ih hsame₂
      exact ⟨a', by simp only [hisDir, if_true, ha₂, ha'], hsame⟩
    | skipDir =>
      have hskip : Same n (meet n last a (dir ++ [c]))
          ((S.tree.preorder fuel (dir ++ [c])).foldl (meet n last)
            (meet n last b (dir ++ [c]))) := by
        rcases skipDir_cases (by rw [hv]) with hspecial | ⟨hfin, hlen⟩
        · have hc : validComponent c = false := by
            rcases child_cases hocc with ⟨rfl, -⟩ | rfl | ⟨hc, -⟩
            · exact special_not_valid.1
            · exact special_not_valid.2
            · simp [entered, (letters_of_valid hc).2.1] at hspecial
          have hnil : S.tree.preorder fuel (dir ++ [c]) = [] := by
            cases fuel with
            | zero => rfl
            | succ fuel => rw [ObjectTree.preorder, children_special hc]; rfl
          rw [hnil]
          exact h.meet last _
        · exact .of_full hfin hlen (h.meet last _) _
      obtain ⟨a', ha', hsame⟩ := ih hskip
      exact ⟨a', by simp only [hisDir, if_true, ha'], hsame⟩

/-- **Leaving out the directories behind a full page changes neither the page nor how the walk
ends.** -/
theorem walk_same (last : List Char) (hdir : S.tree.occupied dir = true)
    (hfuel : S.tree.depth < dir.length + fuel) (h : Same n a b) :
    ∃ a', walkFallback S.tree (visitor n last) fuel dir a = some (a', none) ∧
      Same n a' ((S.tree.preorder fuel dir).foldl (meet n last) b) := by
  induction fuel generalizing dir a b with
  | zero =>
    have hle := ObjectTree.length_le_of_occupied hdir
    omega
  | succ fuel ih =>
    have hchild : ∀ c ∈ (S.tree.children dir).insertionSort (· ≤ ·),
        S.tree.occupied (dir ++ [c]) = true := fun c hc =>
      ObjectTree.mem_children.1 ((mem_insertionSort _).1 hc)
    rw [walkFallback, isDir_tree, if_pos hdir, ObjectTree.preorder]
    refine walkChildren_same hchild (fun c hc _ _ hab => ih (hchild c hc) ?_ hab) h
    rw [length_append, length_singleton]
    omega

/-! ## The listing -/

/-- The repositories after `last`, as a full walk finds them. -/
def listed (S : Stored) (last : List Char) : List Path := (visited S).flatMap (found last)

/-- What a directory adds is a repository. -/
theorem mem_found {r} (h : r ∈ found last p) (hp : p ∈ visited S) :
    p = r ++ [layers] ∧ (∃ name ∈ S.names, r = name.components) ∧
      lessPath last (joinPath r) = true := by
  obtain ⟨⟨hlast, hless⟩, h⟩ := mem_ite_nil_right.1 h
  obtain ⟨dir, rfl⟩ := List.getLast?_eq_some_iff.1 hlast
  rcases child_cases (mem_visited.1 hp).1 with ⟨-, name, hname, rfl⟩ | hc | ⟨hc, -⟩
  · have hne : name.components ++ [layers] ≠ [layers] := by simpa using name.nonempty
    rw [if_neg hne, dropLast_concat] at h hless
    rw [mem_singleton.1 h]
    exact ⟨rfl, ⟨name, hname, rfl⟩, hless⟩
  · exact absurd hc (by decide)
  · simp [special_not_valid.1] at hc

/-- **The listing has the repositories after `last`.** -/
theorem mem_listed {r} : r ∈ listed S last ↔
    (∃ name ∈ S.names, r = name.components) ∧ lessPath last (joinPath r) = true := by
  constructor
  · intro h
    obtain ⟨p, hp, hr⟩ := mem_flatMap.1 h
    exact (mem_found hr hp).2
  · rintro ⟨⟨name, hname, rfl⟩, hless⟩
    have hpath : name.components ++ [layers] ∈ S.paths := by
      simp only [Stored.paths, mem_append, mem_map]
      exact .inl (.inr ⟨name, hname, rfl⟩)
    refine mem_flatMap.2 ⟨_, mem_visited.2 ⟨occupied_iff.2 ⟨_, hpath, prefix_rfl⟩, by simp⟩, ?_⟩
    simp [found, name.nonempty, hless]

/-- **It is in the order of the layers.** -/
theorem sorted_listed : SortedBy (fun r : Path => r ++ [layers]) (listed S last) := by
  refine pairwise_flatMap.2 ⟨fun p _ => ?_, ?_⟩
  · simp only [found]
    split_ifs <;> simp
  · refine List.Pairwise.imp_of_mem ?_ ObjectTree.sorted_preorder
    intro p q hp hq hlt r hr r' hr'
    rwa [(mem_found hr hp).1, (mem_found hr' hq).1] at hlt

/-- INTERNAL: the page as far as the paths have been visited. -/
theorem foldl_meet {ps : List Path} : ps.foldl (meet n last) s =
    ⟨s.repos ++ ps.flatMap (found last), (ps.foldl (meet n last) s).finishedWalk⟩ := by
  induction ps generalizing s with
  | nil => simp
  | cons p ps ih =>
    rw [foldl_cons, ih, meet_eq]
    simp

/-- INTERNAL: the walk counts as finished if a directory is met with the page just full. -/
theorem finished_foldl {ps : List Path} : (ps.foldl (meet n last) s).finishedWalk = true ↔
    s.finishedWalk = true ∨ ∃ ps₁ d ps₂, ps = ps₁ ++ d :: ps₂ ∧ entered d = true ∧
      s.repos.length + (ps₁.flatMap (found last)).length = n := by
  induction ps generalizing s with
  | nil => simp
  | cons p ps ih =>
    rw [foldl_cons, ih, meet_eq]
    simp only [Bool.or_eq_true, Bool.and_eq_true, beq_iff_eq, length_append, or_assoc]
    refine or_congr_right ⟨?_, ?_⟩
    · rintro (⟨hp, hn⟩ | ⟨ps₁, d, ps₂, rfl, hd, hn⟩)
      · exact ⟨[], p, ps, rfl, hp, by simpa using hn⟩
      · exact ⟨p :: ps₁, d, ps₂, rfl, hd, by rw [flatMap_cons, length_append]; omega⟩
    · rintro ⟨ps₁, d, ps₂, heq, hd, hn⟩
      cases ps₁ with
      | nil =>
        cases heq
        exact .inl ⟨hd, by simpa using hn⟩
      | cons q ps₁ =>
        cases heq
        refine .inr ⟨ps₁, d, ps₂, rfl, hd, ?_⟩
        rw [flatMap_cons, length_append] at hn
        omega

/-- A directory is met with the page just full. -/
def Finished (S : Stored) (n : ℕ) (last : List Char) : Prop :=
  ∃ d, IsDir S d ∧ ((listed S last).filter fun r => r ++ [layers] < d).length = n

/-- Every directory is entered. -/
theorem entered_iff (hp : p ∈ visited S) : entered p = true ↔ IsDir S p := by
  obtain ⟨hocc, hne⟩ := mem_visited.1 hp
  obtain ⟨dir, c, rfl⟩ : ∃ dir c, p = dir ++ [c] := ⟨_, _, (dropLast_append_getLast hne).symm⟩
  have hvalid : IsDir S (dir ++ [c]) → validComponent c = true := fun ⟨_, r, _, hpre⟩ =>
    r.valid c (hpre.subset (by simp))
  rw [entered, getLast?_concat, Option.all_some]
  rcases child_cases hocc with ⟨rfl, -⟩ | rfl | ⟨hc, hdir⟩
  · refine iff_of_false (by decide) fun h => ?_
    exact Bool.false_ne_true (special_not_valid.1.symm.trans (hvalid h))
  · refine iff_of_false (by decide) fun h => ?_
    exact Bool.false_ne_true (special_not_valid.2.symm.trans (hvalid h))
  · exact iff_of_true (by simp [(letters_of_valid hc).2.1]) hdir

/-- INTERNAL: the paths before a directory, in the listing. -/
theorem flatMap_found_before {ps₁ ps₂ : List Path} {d} (h : visited S = ps₁ ++ d :: ps₂)
    (hd : entered d = true) :
    ps₁.flatMap (found last) = (listed S last).filter fun r => r ++ [layers] < d := by
  have hsorted : (ps₁ ++ d :: ps₂).Pairwise (· < ·) := h ▸ ObjectTree.sorted_preorder
  obtain ⟨-, hbehind, hbefore⟩ := pairwise_append.1 hsorted
  have hmem : ∀ p, p ∈ ps₁ ++ d :: ps₂ → p ∈ visited S := fun p hp => h ▸ hp
  have hnil : found last d = [] := by
    refine eq_nil_iff_forall_not_mem.2 fun r hr => ?_
    rw [(mem_found hr (hmem d (by simp))).1] at hd
    simp [entered] at hd
    exact hd rfl
  have hfirst : (ps₁.flatMap (found last)).filter (fun r => r ++ [layers] < d) =
      ps₁.flatMap (found last) := by
    refine filter_eq_self.2 fun r hr => ?_
    obtain ⟨p, hp, hr⟩ := mem_flatMap.1 hr
    rw [← (mem_found hr (hmem p (by simp [hp]))).1]
    simpa using hbefore p hp d mem_cons_self
  have hsecond : (ps₂.flatMap (found last)).filter (fun r => r ++ [layers] < d) = [] := by
    refine filter_eq_nil_iff.2 fun r hr => ?_
    obtain ⟨p, hp, hr⟩ := mem_flatMap.1 hr
    rw [← (mem_found hr (hmem p (by simp [hp]))).1]
    simpa using ((pairwise_cons.1 hbehind).1 p hp).le
  rw [listed, h, flatMap_append, flatMap_cons, hnil, nil_append, filter_append, hfirst, hsecond,
    append_nil]

/-- A page is full at some directory. -/
theorem finished_iff_split : Finished S n last ↔ ∃ ps₁ d ps₂, visited S = ps₁ ++ d :: ps₂ ∧
    entered d = true ∧ (ps₁.flatMap (found last)).length = n := by
  constructor
  · rintro ⟨d, hdir, hn⟩
    have hmem := isDir_mem_visited hdir
    obtain ⟨ps₁, ps₂, h⟩ := append_of_mem hmem
    have hd := (entered_iff hmem).2 hdir
    exact ⟨ps₁, d, ps₂, h, hd, (flatMap_found_before h hd).symm ▸ hn⟩
  · rintro ⟨ps₁, d, ps₂, h, hd, hn⟩
    have hmem : d ∈ visited S := h ▸ mem_append_right _ mem_cons_self
    exact ⟨d, (entered_iff hmem).1 hd, flatMap_found_before h hd ▸ hn⟩

/-- The repositories root exists. -/
def RootExists (S : Stored) : Prop := S.rootLeft = true ∨ S.names ≠ [] ∨ S.begun ≠ []

theorem rootExists_iff : S.tree.occupied [] = true ↔ RootExists S := by
  obtain ⟨names, begun, rootLeft⟩ := S
  cases rootLeft <;> cases names <;> cases begun <;>
    simp [ObjectTree.occupied, Stored.tree, Stored.paths, RootExists]

/-- **A page** has the first `n` of the repositories after `last`; the end of the catalog is told
unless a directory is met with the page just full. -/
theorem repositories_spec (last : List Char) (hn : n ≠ 0) (hroot : RootExists S) :
    ∃ err, repositories S.tree n last = some ((listed S last).take n, err) ∧
      (err = none ∧ Finished S n last ∨ err = some .eof ∧ ¬ Finished S n last) := by
  have hstart : Same n ⟨[], false⟩ ⟨[], false⟩ := .inl rfl
  have hfuel : S.tree.depth < ([] : Path).length + (S.tree.depth + 1) := by simp
  obtain ⟨a, ha, hsame⟩ := walk_same last (rootExists_iff.2 hroot) hfuel hstart
  obtain ⟨hpage, hfin⟩ := hsame.page
  have hiff : a.finishedWalk = true ↔ Finished S n last := by
    rw [hfin, finished_foldl, finished_iff_split]
    simp [visited]
  rw [foldl_meet] at hpage
  refine ⟨if a.finishedWalk then none else some .eof, ?_, ?_⟩
  · rw [repositories, if_neg hn, ha]
    simp only [Option.map_some, hpage, nil_append]
    rfl
  · rw [← hiff]
    cases a.finishedWalk with
    | true => exact .inl ⟨rfl, rfl⟩
    | false => exact .inr ⟨rfl, Bool.false_ne_true⟩

theorem repositories_no_root (last : List Char) (hn : n ≠ 0) (hroot : ¬ RootExists S) :
    repositories S.tree n last = some ([], some (.pathNotFound [])) := by
  have hdir : S.tree.isDir [] = false := by
    rw [isDir_tree, Bool.eq_false_iff]
    exact fun h => hroot (rootExists_iff.1 h)
  rw [repositories, if_neg hn, walkFallback, hdir, if_neg Bool.false_ne_true]
  simp

end ContainerRegistry.Analysis.Catalogs
